import StructQL.Proofs.Expansion.Stricter
import StructQL.Proofs.Gathering.Compared
import StructQL.Proofs.Selection.Join

/-!
# Gathering under stricter conditions

What sites select under stricter conditions is covered by what they select under looser ones, and
nothing about their faults depends on the conditions.

* `builds_coveredBy`: selections are covered by others if what they are made of is.
* `Stricter.rel_selection`: **a selection under stricter conditions is covered.**
* `Stricter.rel_entries`: **so are the entries**, one by one and in order.
-/

namespace StructQL

open List

namespace Selection

/-- A selection is covered by another one. -/
def CoveredBy (s t : Selection) : Prop := t.Covers s

/-- A set of fields is covered by another one of the same struct. -/
def SetCoveredBy (x y : FieldSet Selection) : Prop := SetCovers y x

/-- Pairs cover those that are found among them in order, if no key is listed twice. -/
theorem pairsCover_of_sublistForall₂ {α : Type} {R : α → α → Prop} {l m : List (Name × α)}
    (hnd : (m.map Prod.fst).Nodup)
    (h : SublistForall₂ (Pairs.SameKey fun s t => R t s) l m) : PairsCover R m l := by
  obtain ⟨k, hk, hsub⟩ := sublistForall₂_iff.1 h
  have hfound : ∀ name s, (name, s) ∈ l → ∃ t, (name, t) ∈ m ∧ R t s := by
    clear h
    intro name s hs
    induction hk with
    | nil => cases hs
    | @cons p q l k hpq _ ih =>
      obtain ⟨key, t⟩ := q
      obtain ⟨hkey, hR⟩ := hpq
      rcases List.mem_cons.1 hs with rfl | hs
      · obtain rfl : name = key := hkey
        exact ⟨t, hsub.subset List.mem_cons_self, hR⟩
      · exact ih ((sublist_cons_self _ _).trans hsub) hs
  refine ⟨?_, ?_⟩
  · intro name hname
    obtain ⟨⟨_, s⟩, hs, rfl⟩ := List.mem_map.1 hname
    obtain ⟨t, ht, -⟩ := hfound _ s hs
    exact List.mem_map.2 ⟨_, ht, rfl⟩
  · intro name t s ht hs
    obtain ⟨t', ht', hR⟩ := hfound name s hs
    rwa [Pairs.eq_of_mem hnd ht ht']

end Selection

/-- **An entry is covered by another one** of the same field at the same path: merging its selection
into that of the other one changes nothing. -/
structure Entry.CoveredBy (e other : Entry) : Prop where
  path : e.path = other.path
  parent : e.parent = other.parent
  fieldName : e.fieldName = other.fieldName
  fieldType : e.fieldType = other.fieldType
  merge_eq : other.selection.merge e.selection = .ok other.selection

namespace QueryContext

open Checked Selection

theorem setCoveredBy_of_sets {x y : FieldSet Selection}
    (h : Comparison.retaining.Sets CoveredBy x y) : SetCoveredBy x y :=
  ⟨h.typeName.symm, pairsCover_of_sublistForall₂ h.keys h.fields⟩

/-- **Selections and entries are covered** if they retain what they are made of. -/
theorem builds_coveredBy : Comparison.retaining.Builds CoveredBy Entry.CoveredBy where
  whole := .whole
  struct _ _ h := covers_struct_iff.2 (setCoveredBy_of_sets h)
  union _ _ _ hnd h := by
    have hsets : Forall₂ (Pairs.SameKey SetCoveredBy) _ _ :=
      Forall₂.imp (fun _ _ hxy => ⟨hxy.1, setCoveredBy_of_sets hxy.2⟩) h
    exact covers_union_iff.2
      ⟨rfl, pairsCover_of_sublistForall₂ hnd (sublistForall₂_of_forall₂ hsets)⟩
  settled a b s t hab hst := by
    cases b with
    | true => exact .whole
    | false =>
      cases a with
      | true => exact absurd (hab rfl) Bool.false_ne_true
      | false => exact hst
  entry _ _ _ _ _ _ hst := ⟨rfl, rfl, rfl, rfl, merge_eq_ok_iff.2 (Covers.absorb_eq hst)⟩

variable {strict loose : QueryContext} {sites others : List Site}

/-- What is selected is checked alike under both conditions, and what is included stays so under the
looser ones. -/
theorem Stricter.expands (h : strict.Stricter loose) :
    Comparison.retaining.Expands Site.Under Occurrence.Under strict loose where
  schema := h.schema
  isBare _ _ hsite := hsite.isBare
  included _ _ hsite := hsite.included
  site _ _ ho := ho.site
  parent _ _ ho := ho.parent
  aliasName _ _ ho := ho.aliasName
  name _ _ ho := ho.name
  formFaults _ _ ho := h.formFaults ho
  occurrences scope _ _ hsite := h.rel_occurrences scope hsite

theorem Stricter.levels_eq (h : strict.Stricter loose) (hs : Forall₂ Site.Under sites others) :
    strict.levels sites = loose.levels others := by
  have hcount : sites.foldr (fun site n => Query.fieldCountOf site.selections + n) 0 =
      others.foldr (fun site n => Query.fieldCountOf site.selections + n) 0 := by
    induction hs with
    | nil => rfl
    | cons hsite _ ih => rw [foldr_cons, foldr_cons, hsite.selections, ih]
  unfold levels fieldCount
  rw [h.schema, h.fragments, hcount]

/-- **A selection under stricter conditions is covered** by the one under looser conditions. -/
theorem Stricter.rel_selection (h : strict.Stricter loose) (scope : Name)
    (sites others : List Site) (hs : Forall₂ Site.Under sites others) :
    Rel (Retained CoveredBy) (strict.selection scope sites) (loose.selection scope others) := by
  unfold selection
  rw [h.levels_eq hs]
  exact h.expands.selectionWithin builds_coveredBy _ scope sites others hs

/-- **The entries under stricter conditions are covered**, one by one and in order. -/
theorem Stricter.rel_entries (h : strict.Stricter loose) (scope : Name)
    (hs : Forall₂ Site.Under sites others) :
    Rel (SublistForall₂ Entry.CoveredBy) (strict.entries scope sites)
      (loose.entries scope others) := by
  unfold entries
  rw [h.levels_eq hs]
  exact h.expands.entriesWithin builds_coveredBy _ [] scope sites others hs

end QueryContext

end StructQL
