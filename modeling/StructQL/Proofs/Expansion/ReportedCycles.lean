import Mathlib.Data.List.Rotate
import StructQL.Proofs.Expansion.FragmentCycle
import StructQL.Proofs.Fault.Report
import StructQL.Proofs.Name

/-!
# The cycles that are reported

Each fault of a table of fragments shows a cycle of spreads. A cycle is reported from the fragment
that the search entered first, so no two faults show the same one. Not every cycle is reported, but
none is without a reference that closes one that is.

* `exists_entered`: the fragments of a cycle stand in the order in which the search entered them.
* `eq_of_cycleFault?`: a fault tells which cycle it shows.
* `exists_closes`: some reference of every cycle closes one that the search meets.
* `reports_fragmentCycles`: **the search is sound and complete, and reports no cycle twice.**
-/

namespace StructQL

variable {fragments : Table Query.Fragment} {cycle other : List Name} {f g : Fault}

/-! ## The order of the search -/

section

variable {α : Type} [DecidableEq α] {part l m : List α}

/-- A part of a list is told by its members, if nothing stands twice in the list. -/
theorem eq_filter_of_sublist (h : part.Sublist l) (hnd : l.Nodup) :
    part = l.filter fun a => a ∈ part := by
  induction h with
  | slnil => rfl
  | @cons part l a hsub ih =>
    have hout : a ∉ part := fun hmem => (List.nodup_cons.1 hnd).1 (hsub.subset hmem)
    rw [List.filter_cons_of_neg (by simpa using hout)]
    exact ih (List.nodup_cons.1 hnd).2
  | @cons_cons part l a hsub ih =>
    obtain ⟨hnew, hnd⟩ := List.nodup_cons.1 hnd
    rw [List.filter_cons_of_pos (by simp)]
    have hrest : l.filter (fun b => b ∈ a :: part) = l.filter fun b => b ∈ part := by
      refine List.filter_congr fun b hb => ?_
      have hne : b ≠ a := fun he => hnew (he ▸ hb)
      simp [hne]
    rw [hrest, ← ih hnd]

/-- Two parts of such a list are the same as soon as one is the other in another order. -/
theorem eq_of_sublist_of_perm (hnd : m.Nodup) (hpart : part.Sublist m) (hl : l.Sublist m)
    (h : part.Perm l) : part = l := by
  rw [eq_filter_of_sublist hpart hnd, eq_filter_of_sublist hl hnd]
  exact List.filter_congr fun a _ => decide_eq_decide.2 h.mem_iff

end

/-- **Fragments that a search can enter one after the other**: they are unvisited, and none stands
twice. -/
structure Enterable (unvisited : Table Query.Fragment) (entered : List Name) : Prop where
  nodup : entered.Nodup
  found : ∀ name ∈ entered, (unvisited.find? name).isSome = true

/-- A fragment is entered before those that the search enters from there on. -/
theorem Enterable.cons {unvisited : Table Query.Fragment} {entered : List Name} {name : Name}
    {fragment : Query.Fragment} (h : Enterable (unvisited.erase name) entered)
    (hfind : unvisited.find? name = some fragment) : Enterable unvisited (name :: entered) := by
  have hnew : name ∉ entered := by
    intro hmem
    have hfound := h.found name hmem
    rw [Table.find?_erase, if_pos rfl] at hfound
    cases hfound
  refine ⟨List.nodup_cons.2 ⟨hnew, h.nodup⟩, fun next hnext => ?_⟩
  obtain rfl | hnext := List.mem_cons.1 hnext
  · rw [hfind]
    rfl
  · obtain ⟨fragment, hfragment⟩ := Option.isSome_iff_exists.1 (h.found next hnext)
    rw [Table.find?_of_erase hfragment]
    rfl

/-- **The fragments of a cycle stand in the order in which the search entered them**: first those of
the way, and then those that it enters later. -/
theorem exists_entered (starts : List Name) (way : List Frame) (unvisited : Table Query.Fragment) :
    ∃ entered, Enterable unvisited entered ∧ ∀ cycle ∈ fragmentCycles starts way unvisited,
      cycle.Sublist ((way.map Frame.name).reverse ++ entered) := by
  induction starts, way, unvisited using fragmentCycles.induct with
  | case1 unvisited =>
    rw [fragmentCycles]
    exact ⟨[], ⟨.nil, List.forall_mem_nil _⟩, List.forall_mem_nil _⟩
  | case2 unvisited first rest hnone ih =>
    rw [fragmentCycles_start_of_none hnone]
    exact ih
  | case3 unvisited first rest fragment hfind ih =>
    rw [fragmentCycles_start hfind]
    obtain ⟨entered, henter, hsub⟩ := ih
    have hname : fragment.name = first := Table.nameOf_of_find? hfind
    refine ⟨first :: entered, henter.cons hfind, fun cycle hcycle => ?_⟩
    simpa [Frame.ofFragment, hname] using hsub cycle hcycle
  | case4 starts unvisited name rest ih =>
    rw [fragmentCycles]
    obtain ⟨entered, henter, hsub⟩ := ih
    refine ⟨entered, henter, fun cycle hcycle => (hsub cycle hcycle).trans ?_⟩
    simp
  | case5 starts unvisited name spread pending rest way hway ih =>
    rw [fragmentCycles_close hway]
    obtain ⟨entered, henter, hsub⟩ := ih
    refine ⟨entered, henter, List.forall_mem_cons.2 ⟨?_, hsub⟩⟩
    -- the cycle is the end of the way
    exact (List.dropWhile_sublist _).trans (List.sublist_append_left _ _)
  | case6 starts unvisited name spread pending rest way hway hnone ih =>
    rw [fragmentCycles_skip hway hnone]
    exact ih
  | case7 starts unvisited name spread pending rest way hway fragment hfind ih =>
    rw [fragmentCycles_enter hway hfind]
    obtain ⟨entered, henter, hsub⟩ := ih
    have hname : fragment.name = spread := Table.nameOf_of_find? hfind
    refine ⟨spread :: entered, henter.cons hfind, fun cycle hcycle => ?_⟩
    simpa [way, Frame.ofFragment, hname] using hsub cycle hcycle

/-- What the search meets leaves no fragment twice. -/
theorem nodup_of_mem_fragmentCycles (h : cycle ∈ fragmentCycles fragments.names [] fragments) :
    cycle.Nodup := by
  obtain ⟨entered, henter, hsub⟩ := exists_entered fragments.names [] fragments
  exact (hsub cycle h).nodup henter.nodup

/-- **No cycle is met from two of its fragments.** -/
theorem eq_of_isRotated (h : cycle ∈ fragmentCycles fragments.names [] fragments)
    (h' : other ∈ fragmentCycles fragments.names [] fragments) (hrotated : cycle ~r other) :
    cycle = other := by
  obtain ⟨entered, henter, hsub⟩ := exists_entered fragments.names [] fragments
  exact eq_of_sublist_of_perm henter.nodup (hsub cycle h) (hsub other h') hrotated.perm

/-! ## What a fault shows -/

/-- What follows the first of several names that are joined. -/
def arrows : List Name → List Char
  | [] => []
  | name :: rest => " -> ".toList ++ (name.text.toList ++ arrows rest)

theorem toList_join (name : Name) (rest : List Name) :
    (Text.join " -> " ((name :: rest).map Name.text)).toList = name.text.toList ++ arrows rest := by
  induction rest generalizing name with
  | nil =>
    rw [arrows, List.append_nil]
    rfl
  | cons next rest ih =>
    have hjoin : Text.join " -> " ((name :: next :: rest).map Name.text) =
        name.text ++ " -> " ++ Text.join " -> " ((next :: rest).map Name.text) := rfl
    rw [hjoin, String.toList_append, String.toList_append, ih next, arrows, List.append_assoc]

theorem takeWhile_arrows (rest : List Name) : (arrows rest).takeWhile isNameContinue = [] := by
  cases rest with
  | nil => rfl
  | cons next rest => exact List.takeWhile_cons_of_neg (by decide)

theorem arrows_injective {l m : List Name} (h : arrows l = arrows m) : l = m := by
  induction l generalizing m with
  | nil =>
    cases m with
    | nil => rfl
    | cons b m => cases h
  | cons a l ih =>
    cases m with
    | nil => cases h
    | cons b m =>
      have hnames := List.append_cancel_left h
      obtain ⟨rfl, hrest⟩ := Name.eq_of_append hnames (takeWhile_arrows l) (takeWhile_arrows m)
      rw [ih hrest]

/-- **Names are told from what they are joined to.** -/
theorem join_names_injective {a b : Name} {l m : List Name}
    (h : Text.join " -> " ((a :: l).map Name.text) = Text.join " -> " ((b :: m).map Name.text)) :
    a :: l = b :: m := by
  have hchars := congrArg String.toList h
  rw [toList_join, toList_join] at hchars
  obtain ⟨rfl, hrest⟩ := Name.eq_of_append hchars (takeWhile_arrows l) (takeWhile_arrows m)
  rw [arrows_injective hrest]

/-- **A fault tells which cycle it shows.** -/
theorem eq_of_cycleFault? (h : cycleFault? cycle = some f) (h' : cycleFault? other = some f) :
    cycle = other := by
  cases cycle with
  | nil => cases h
  | cons a l =>
    cases other with
    | nil => cases h'
    | cons b m =>
      have hfault := (Option.some.inj h).trans (Option.some.inj h').symm
      obtain ⟨-, htext⟩ := Fault.fragmentCycle.inj hfault
      have hjoined : a :: l ++ [a] = b :: m ++ [b] := join_names_injective htext
      exact (List.append_inj' hjoined rfl).1

/-! ## Every cycle has a reference that closes one -/

/-- The reference closes a cycle that the search meets: it leads from the last fragment of the cycle
to the first one. -/
def Closes (fragments : Table Query.Fragment) (last first : Name) : Prop :=
  ∃ cycle ∈ fragmentCycles fragments.names [] fragments,
    cycle.head? = some first ∧ cycle.getLast? = some last

/-- The references that close nothing lead nowhere in the end. -/
theorem wellFounded_of_not_closes (fragments : Table Query.Fragment) :
    WellFounded fun other name => RefersTo fragments name other ∧ ¬ Closes fragments name other := by
  refine ⟨fun name => ends_of_closed ?_ name⟩
  intro cycle hcycle first last hfirst hlast
  exact ⟨cycle, hcycle, hfirst, hlast⟩

/-- **Some reference of every cycle closes one** that the search meets. -/
theorem exists_closes (h : IsSpreadCycle fragments cycle) :
    ∃ last first, Closes fragments last first ∧ [last, first] <:+: around cycle := by
  by_contra hopen
  have hchain : (around cycle).IsChain fun name other =>
      RefersTo fragments name other ∧ ¬ Closes fragments name other := by
    rw [List.isChain_iff_forall_rel_of_append_cons_cons]
    intro last first before after haround
    have hrefers := List.isChain_iff_forall_rel_of_append_cons_cons.1 h.chain haround
    refine ⟨hrefers, fun hcloses => hopen ⟨last, first, hcloses, before, after, ?_⟩⟩
    simp [haround]
  obtain ⟨first, rest, rfl⟩ := List.exists_cons_of_ne_nil h.ne_nil
  exact not_transGen_of_wellFounded (wellFounded_of_not_closes fragments) first
    (transGen_of_around hchain)

/-! ## The report -/

theorem mem_reported_iff :
    f ∈ (Report.ofList (fragmentCycleFaults fragments)).faults ↔
      ∃ cycle ∈ fragmentCycles fragments.names [] fragments, cycleFault? cycle = some f := by
  rw [Report.mem_ofList, fragmentCycleFaults, List.mem_filterMap]

/-- **The search is sound and complete, and reports no cycle twice.** Each fault shows one cycle,
which leaves no fragment twice. Two faults never show the same cycle from different fragments on.
Every cycle has a reference that closes one of those that are shown, and so there are faults just if
some fragment leads back to itself. -/
theorem reports_fragmentCycles (fragments : Table Query.Fragment) :
    let reported := (Report.ofList (fragmentCycleFaults fragments)).faults
    (∀ f ∈ reported, ∃ cycle, cycleFault? cycle = some f ∧ IsSpreadCycle fragments cycle ∧
        cycle.Nodup ∧ ∀ other, cycleFault? other = some f → other = cycle) ∧
      reported.Nodup ∧
      (∀ f ∈ reported, ∀ g ∈ reported, ∀ cycle other, cycleFault? cycle = some f →
        cycleFault? other = some g → cycle ~r other → f = g) ∧
      (∀ walk, IsSpreadCycle fragments walk → ∃ f ∈ reported, ∃ cycle, cycleFault? cycle = some f ∧
        ∃ first last, cycle.head? = some first ∧ cycle.getLast? = some last ∧
          [last, first] <:+: around walk) ∧
      (reported ≠ [] ↔ ∃ name, Relation.TransGen (RefersTo fragments) name name) := by
  intro reported
  refine ⟨?_, Report.nodup_ofList _, ?_, ?_, ?_⟩
  · intro f hf
    obtain ⟨cycle, hcycle, hshows⟩ := mem_reported_iff.1 hf
    exact ⟨cycle, hshows, isSpreadCycle_of_mem_fragmentCycles hcycle,
      nodup_of_mem_fragmentCycles hcycle, fun other hother => eq_of_cycleFault? hother hshows⟩
  · intro f hf g hg cycle other hcycle hother hrotated
    obtain ⟨found, hfound, hf⟩ := mem_reported_iff.1 hf
    obtain ⟨found', hfound', hg⟩ := mem_reported_iff.1 hg
    obtain rfl := eq_of_cycleFault? hcycle hf
    obtain rfl := eq_of_cycleFault? hother hg
    obtain rfl := eq_of_isRotated hfound hfound' hrotated
    exact Option.some.inj (hcycle.symm.trans hother)
  · intro walk hwalk
    obtain ⟨last, first, ⟨cycle, hcycle, hfirst, hlast⟩, hinfix⟩ := exists_closes hwalk
    obtain ⟨f, hf⟩ : ∃ f, cycleFault? cycle = some f := by
      rw [cycleFault?, hfirst]
      exact ⟨_, rfl⟩
    exact ⟨f, mem_reported_iff.2 ⟨cycle, hcycle, hf⟩, cycle, hf, first, last, hfirst, hlast, hinfix⟩
  · rw [ne_eq, Report.ofList_eq_nil_iff, fragmentCycleFaults_eq_nil_iff, Acyclic, not_forall]
    simp only [not_not]

end StructQL
