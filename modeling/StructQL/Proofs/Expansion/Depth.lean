import Mathlib.Data.Set.Basic
import Mathlib.Logic.Relation
import StructQL.Gathering.StructSelection
import StructQL.Proofs.Expansion.Selects

/-!
# How deep selections lead

A fragment may spread itself on one level, where it is not entered again. Below a field it must
not, or the selections would lead on forever.

* `NoNestedCycle`: no fragment reaches itself through a field.
* `weight_lt_of_stands`: without such cycles, what is selected of a field weighs less than the
  selections in which the field stands.
* `Within`: so many levels are enough for some selections.
-/

namespace StructQL

namespace Query

/-- **The selections spread a fragment**, below a field or, if not nested, on their own level. -/
inductive Spreads : Bool → List Node → Name → Prop where
  | spread {nodes : List Node} {name : Name} {directives : List Directive} :
    .spread name directives ∈ nodes → Spreads false nodes name
  | inline {nested : Bool} {nodes selections : List Node} {condition : Option Name}
    {directives : List Directive} {name : Name} :
    .inline condition directives selections ∈ nodes → Spreads nested selections name →
    Spreads nested nodes name
  | field {nested : Bool} {nodes selections : List Node} {aliasName : Option Name}
    {fieldName name : Name} {arguments : List Argument} {directives : List Directive} :
    .field aliasName fieldName arguments directives selections ∈ nodes →
    Spreads nested selections name → Spreads true nodes name

theorem fieldCount_le_of_mem {node : Node} {nodes : List Node} (h : node ∈ nodes) :
    node.fieldCount ≤ fieldCountOf nodes := by
  induction nodes with
  | nil => cases h
  | cons first rest ih =>
    rw [fieldCountOf]
    rcases List.mem_cons.1 h with rfl | h
    · omega
    · have := ih h
      omega

end Query

variable {fragments : Table Query.Fragment}

/-- A fragment spreads another one. -/
def Refers (fragments : Table Query.Fragment) (nested : Bool) (name other : Name) : Prop :=
  ∃ fragment, fragments.find? name = some fragment ∧
    Query.Spreads nested fragment.selections other

/-- A fragment leads to another one, over any number of fragments. -/
def LeadsTo (fragments : Table Query.Fragment) : Name → Name → Prop :=
  Relation.ReflTransGen fun name other => ∃ nested, Refers fragments nested name other

/-- **No fragment reaches itself through a field.** -/
def NoNestedCycle (fragments : Table Query.Fragment) : Prop :=
  ∀ name other, Refers fragments true name other → ¬ LeadsTo fragments other name

/-- The selections lead to a fragment. -/
def Reaches (fragments : Table Query.Fragment) (nodes : List Query.Node) (name : Name) : Prop :=
  ∃ nested first, Query.Spreads nested nodes first ∧ LeadsTo fragments first name

theorem Reaches.trans {nodes : List Query.Node} {name other : Name}
    (h : Reaches fragments nodes name) (ht : LeadsTo fragments name other) :
    Reaches fragments nodes other := by
  obtain ⟨nested, first, hs, hl⟩ := h
  exact ⟨nested, first, hs, hl.trans ht⟩

/-- Selections stand below a field of others. -/
structure Nested (outer inner : List Query.Node) : Prop where
  fieldCount : Query.fieldCountOf inner < Query.fieldCountOf outer
  spreads : ∀ nested name, Query.Spreads nested inner name → Query.Spreads true outer name

/-! ## Weights -/

section

variable {P Q : Name → Prop} {l : List Query.Fragment}

open Classical in
/-- The number of fields that are written in the fragments of some names. -/
noncomputable def writtenIn (P : Name → Prop) : List Query.Fragment → Nat
  | [] => 0
  | f :: rest => (if P f.name then Query.fieldCountOf f.selections else 0) + writtenIn P rest

theorem writtenIn_le (h : ∀ name, P name → Q name) : writtenIn P l ≤ writtenIn Q l := by
  induction l with
  | nil => exact Nat.le_refl _
  | cons f rest ih =>
    rw [writtenIn, writtenIn]
    by_cases hp : P f.name
    · rw [if_pos hp, if_pos (h _ hp)]
      omega
    · rw [if_neg hp]
      omega

theorem writtenIn_add_le {f : Query.Fragment} (hf : f ∈ l) (hp : ¬ P f.name) (hq : Q f.name)
    (h : ∀ name, P name → Q name) :
    writtenIn P l + Query.fieldCountOf f.selections ≤ writtenIn Q l := by
  induction l with
  | nil => cases hf
  | cons g rest ih =>
    rw [writtenIn, writtenIn]
    rcases List.mem_cons.1 hf with rfl | hf
    · have hrest := writtenIn_le (l := rest) h
      rw [if_neg hp, if_pos hq]
      omega
    · have hrest := ih hf
      by_cases hg : P g.name
      · rw [if_pos hg, if_pos (h _ hg)]
        omega
      · rw [if_neg hg]
        omega

theorem writtenIn_add_le_foldr (n : Nat) :
    writtenIn P l + n ≤ l.foldr (fun f n => Query.fieldCountOf f.selections + n) n := by
  induction l with
  | nil => rw [writtenIn, List.foldr_nil]; omega
  | cons f rest ih =>
    rw [writtenIn, List.foldr_cons]
    split <;> omega

/-- The number of fields that are written in selections and in the fragments they lead to. -/
noncomputable def weight (fragments : Table Query.Fragment) (nodes : List Query.Node) : Nat :=
  Query.fieldCountOf nodes + writtenIn (Reaches fragments nodes) fragments.toList

end

section

variable {keep : List Query.Directive → Prop} {nodes selections : List Query.Node}
  {conditions names : List Name} {aliasName : Option Name} {name : Name}
  {arguments : List Query.Argument} {directives : List Query.Directive}

/-- What is selected of a field stands below a field of the selections, or below a field of a
fragment that they lead to. -/
theorem Stands.nested (h : Stands fragments keep nodes conditions names
    (.field aliasName name arguments directives selections)) :
    Nested nodes selections ∨ ∃ name fragment, Reaches fragments nodes name ∧
      fragments.find? name = some fragment ∧ Nested fragment.selections selections := by
  generalize hnode : Query.Node.field aliasName name arguments directives selections = node at h
  induction h with
  | here hmem =>
    subst hnode
    have hle := Query.fieldCount_le_of_mem hmem
    rw [Query.Node.fieldCount] at hle
    exact .inl ⟨by omega, fun _ _ hs => .field hmem hs⟩
  | inline hmem _ _ ih =>
    have hle := Query.fieldCount_le_of_mem hmem
    rw [Query.Node.fieldCount] at hle
    rcases ih hnode with hn | ⟨name, fragment, ⟨nested, first, hs, hl⟩, hfind, hn⟩
    · exact .inl ⟨Nat.lt_of_lt_of_le hn.fieldCount hle,
        fun nested name hs => .inline hmem (hn.spreads nested name hs)⟩
    · exact .inr ⟨name, fragment, ⟨nested, first, .inline hmem hs, hl⟩, hfind, hn⟩
  | @spread _ first _ fragment _ _ _ hmem _ hfind _ ih =>
    rcases ih hnode with hn | ⟨name, other, ⟨nested, second, hs, hl⟩, hfind', hn⟩
    · exact .inr ⟨first, fragment, ⟨false, first, .spread hmem, .refl⟩, hfind, hn⟩
    · have hstep : LeadsTo fragments first second := .single ⟨nested, fragment, hfind, hs⟩
      exact .inr ⟨name, other, ⟨false, first, .spread hmem, hstep.trans hl⟩, hfind', hn⟩

/-- **What is selected of a field weighs less** than the selections in which the field stands. -/
theorem weight_lt_of_stands (hc : NoNestedCycle fragments)
    (h : Stands fragments keep nodes conditions names
      (.field aliasName name arguments directives selections)) :
    weight fragments selections < weight fragments nodes := by
  unfold weight
  rcases h.nested with hn | ⟨name, fragment, hreach, hfind, hn⟩
  · -- below a field of the selections: no new fragments, and fewer fields
    have hsum : writtenIn (Reaches fragments selections) fragments.toList ≤
        writtenIn (Reaches fragments nodes) fragments.toList := by
      apply writtenIn_le
      rintro g ⟨nested, first, hs, hl⟩
      exact ⟨true, first, hn.spreads nested first hs, hl⟩
    have := hn.fieldCount
    omega
  · have hrefers : ∀ nested first, Query.Spreads nested selections first →
        Refers fragments true name first := fun nested first hs =>
      ⟨fragment, hfind, hn.spreads nested first hs⟩
    obtain rfl : fragment.name = name := by simpa [Named.nameOf] using List.find?_some hfind
    -- the fragment itself is left behind for good
    have hout : ¬ Reaches fragments selections fragment.name := by
      rintro ⟨nested, first, hs, hl⟩
      exact hc fragment.name first (hrefers nested first hs) hl
    have hsum := writtenIn_add_le (List.mem_of_find?_eq_some hfind) hout hreach (by
      rintro g ⟨nested, first, hs, hl⟩
      have hstep : LeadsTo fragments fragment.name first :=
        .single ⟨true, hrefers nested first hs⟩
      exact hreach.trans (hstep.trans hl))
    have := hn.fieldCount
    omega

end

namespace QueryContext

variable {ctx : QueryContext} {nodes : List Query.Node} {conditions names : List Name}
  {f : SelectedField}

/-- **What is selected of a field weighs less** than the selections that lead to it. -/
theorem weight_lt_of_selects (hc : NoNestedCycle ctx.fragments)
    (h : ctx.Selects nodes conditions names f) :
    weight ctx.fragments f.selections < weight ctx.fragments nodes := by
  obtain ⟨_, _, _, hs, -, -⟩ := selects_iff_stands.1 h
  exact weight_lt_of_stands hc hs

/-- What is selected of an occurrence weighs less than the site that it is one of. -/
theorem weight_lt_of_mem_occurrences (hc : NoNestedCycle ctx.fragments) {scope : Name}
    {site : Site} {o : Occurrence} (ho : o ∈ (ctx.occurrences scope site).value) :
    weight ctx.fragments o.site.selections < weight ctx.fragments site.selections := by
  obtain ⟨_, _, -, hs, -⟩ := stands_of_mem_expand _ _ _ _ o ho
  exact weight_lt_of_stands hc hs

/-- The selections of the included sites. -/
def included (sites : List Site) : Set (List Query.Node) :=
  {nodes | ∃ site ∈ sites, site.included = true ∧ site.selections = nodes}

/-- **So many levels are enough** for the selections. A level below the first is only needed where
the schema has some type. -/
structure Within (ctx : QueryContext) (levels : Nat) (S : Set (List Query.Node)) : Prop where
  pos : 0 < levels
  weight : 0 < ctx.schema.types.size → ∀ nodes ∈ S, weight ctx.fragments nodes < levels

theorem Within.below {n : Nat} {S S' : Set (List Query.Node)} (hc : NoNestedCycle ctx.fragments)
    (h : ctx.Within (n + 1) S) (hsize : 0 < ctx.schema.types.size) (hne : S'.Nonempty)
    (hsub : ∀ inner ∈ S', ∃ nodes ∈ S, ∃ conditions names f,
      ctx.Selects nodes conditions names f ∧ f.selections = inner) : ctx.Within n S' := by
  have hlt : ∀ inner ∈ S', StructQL.weight ctx.fragments inner < n := by
    intro inner hinner
    obtain ⟨nodes, hnodes, cs, ns, f, hs, rfl⟩ := hsub inner hinner
    have h₁ := weight_lt_of_selects hc hs
    have h₂ := h.weight hsize nodes hnodes
    omega
  obtain ⟨inner, hinner⟩ := hne
  exact ⟨Nat.lt_of_le_of_lt (Nat.zero_le _) (hlt inner hinner), fun _ => hlt⟩

theorem fieldCountOf_le_of_mem {site : Site} {sites : List Site} (h : site ∈ sites) :
    Query.fieldCountOf site.selections ≤
      sites.foldr (fun site n => Query.fieldCountOf site.selections + n) 0 := by
  induction sites with
  | nil => cases h
  | cons first rest ih =>
    rw [List.foldr_cons]
    rcases List.mem_cons.1 h with rfl | h
    · omega
    · have := ih h
      omega

/-- What is selected at one of some sites weighs less than the levels of all of them. -/
theorem weight_lt_levels (hsize : 0 < ctx.schema.types.size) {site : Site} {sites : List Site}
    (hsite : site ∈ sites) :
    StructQL.weight ctx.fragments site.selections < ctx.levels sites := by
  have hweight : StructQL.weight ctx.fragments site.selections ≤ ctx.fieldCount sites := by
    have h₁ := fieldCountOf_le_of_mem hsite
    have h₂ := writtenIn_add_le_foldr (P := Reaches ctx.fragments site.selections)
      (l := ctx.fragments.toList)
      (sites.foldr (fun site n => Query.fieldCountOf site.selections + n) 0)
    unfold fieldCount StructQL.weight
    omega
  have hmul : ctx.fieldCount sites ≤ ctx.schema.types.size * ctx.fieldCount sites :=
    Nat.le_mul_of_pos_left _ hsize
  unfold levels
  omega

/-- **The levels of sites are enough for them.** -/
theorem within_levels (sites : List Site) : ctx.Within (ctx.levels sites) (included sites) := by
  refine ⟨Nat.succ_pos _, ?_⟩
  rintro hsize nodes ⟨site, hsite, -, rfl⟩
  exact weight_lt_levels hsize hsite

end QueryContext

end StructQL
