import StructQL.Proofs.Gathering.Faults
import StructQL.Proofs.Gathering.ObjectEntries
import StructQL.Proofs.Recursion

/-!
# Enough levels

Gathering goes down from the sites of a value to those of the fields below. Where no fragment reaches
itself through a field, each of these weighs less, so that the number of levels does not matter.

* `Question`, `QueryContext.walk`: what is asked of sites, and the answer from the answers below.
* `iterate_walk`: each level unfolds the walk once.
* `walk_asksSmaller`: the questions below weigh less.
* `selectionWithin_eq_selection`, `entriesWithin_eq_entries`: **the answers are those of any higher number
  of levels.**
* `walk_terminates`: **the walk ends with the entries of the sites.**
-/

namespace StructQL

/-- **What is asked of sites**: what they select of a struct, or which entries they have below
a path. -/
inductive Question where
  | selection (scope : Name) (sites : List Site)
  | entries (path : List Name) (scope : Name) (sites : List Site)

namespace Question

/-- What a question is answered with. -/
def Answer : Question → Type
  | selection .. => Checked (Option Selection)
  | entries .. => Checked (List Entry)

/-- The sites that are asked about. -/
def sites : Question → List Site
  | selection _ sites | entries _ _ sites => sites

end Question

namespace QueryContext

open Checked

variable {ctx : QueryContext} {gather gather' : Name → List Site → Checked (Option Selection)}
  {descend descend' : List Name → Name → List Site → Checked (List Entry)}
  {path : List Name} {scope : Name} {sites : List Site} {place : Place}
  {group occurrences : List Occurrence}

/-! ## What entries depend on -/

/-- The entries of a place depend on what is gathered of its field, if this exists. -/
theorem entriesAt_congr
    (h : ∀ field, ctx.schema.field? place.parent place.fieldName = some field →
      gather field.type.base (group.map Occurrence.site) =
          gather' field.type.base (group.map Occurrence.site) ∧
        descend (path ++ [place.key]) field.type.base (group.map Occurrence.site) =
          descend' (path ++ [place.key]) field.type.base (group.map Occurrence.site)) :
    ctx.entriesAt gather descend path place group =
      ctx.entriesAt gather' descend' path place group := by
  unfold entriesAt
  cases hf : ctx.schema.field? place.parent place.fieldName with
  | none => rfl
  | some field =>
    dsimp only
    rw [(h field hf).1, (h field hf).2]

theorem scopeEntries_congr
    (h : ∀ place group, (place, group) ∈ ctx.placeGroups scope occurrences →
      ctx.entriesAt gather descend path place group =
        ctx.entriesAt gather' descend' path place group) :
    ctx.scopeEntries gather descend path scope occurrences =
      ctx.scopeEntries gather' descend' path scope occurrences := by
  have heach : each (ctx.placeGroups scope occurrences) (fun p =>
        ctx.entriesAt gather descend path p.1 p.2) =
      each (ctx.placeGroups scope occurrences) fun p =>
        ctx.entriesAt gather' descend' path p.1 p.2 :=
    each_congr fun p hp => h p.1 p.2 hp
  change (each (ctx.placeGroups scope occurrences) _ >>= _) =
    each (ctx.placeGroups scope occurrences) _ >>= _
  rw [heach]

theorem ne_nil_of_mem_placeGroups (h : (place, group) ∈ ctx.placeGroups scope occurrences) :
    group ≠ [] :=
  (Pairs.mem_group.1 h).1

/-! ## The walk -/

/-- **The answer to a question**, from the answers to the questions about the fields below. -/
def walk (ctx : QueryContext) (answer : ∀ q : Question, q.Answer) : ∀ q : Question, q.Answer
  | .selection scope sites => show Checked (Option Selection) from do
    let occurrences ← ctx.allOccurrences scope sites
    let narrowed ← ctx.scopeSelection (fun n s => answer (.selection n s)) scope occurrences
    if !sites.any Site.included then return none
    else if sites.any fun site => site.isBare && site.included then return some .whole
    else return some narrowed
  | .entries path scope sites => show Checked (List Entry) from do
    let occurrences ← ctx.allOccurrences scope sites
    ctx.scopeEntries (fun n s => answer (.selection n s)) (fun p n s => answer (.entries p n s))
      path scope occurrences

/-- The answers of so many levels. -/
def answerWithin (ctx : QueryContext) (levels : Nat) : ∀ q : Question, q.Answer
  | .selection scope sites => ctx.selectionWithin levels scope sites
  | .entries path scope sites => ctx.entriesWithin levels path scope sites

theorem walk_answerWithin (levels : Nat) :
    ctx.walk (ctx.answerWithin levels) = ctx.answerWithin (levels + 1) := by
  funext q
  cases q <;> rfl

/-- **Each level unfolds the walk once.** -/
theorem iterate_walk (levels : Nat) :
    ctx.walk^[levels] (ctx.answerWithin 0) = ctx.answerWithin levels := by
  induction levels with
  | zero => rfl
  | succ levels ih => rw [Function.iterate_succ_apply', ih, walk_answerWithin]

/-! ## Weights -/

/-- The weight of the heaviest site. -/
noncomputable def heaviest (ctx : QueryContext) (sites : List Site) : Nat :=
  (sites.map fun site => weight ctx.fragments site.selections).foldr max 0

theorem heaviest_lt_iff {n : Nat} (hn : 0 < n) :
    ctx.heaviest sites < n ↔ ∀ site ∈ sites, weight ctx.fragments site.selections < n := by
  unfold heaviest
  induction sites with
  | nil => simpa using hn
  | cons site sites ih => simp [ih]

theorem weight_le_heaviest {site : Site} (h : site ∈ sites) :
    weight ctx.fragments site.selections ≤ ctx.heaviest sites :=
  Nat.le_of_lt_succ ((heaviest_lt_iff (Nat.succ_pos _)).1 (Nat.lt_succ_self _) site h)

/-- What is selected of some of the fields weighs less than the sites. -/
theorem heaviest_group_lt (hc : NoNestedCycle ctx.fragments)
    (hne : group ≠ []) (hgroup : ∀ o ∈ group, o ∈ (ctx.allOccurrences scope sites).value) :
    ctx.heaviest (group.map Occurrence.site) < ctx.heaviest sites := by
  have hless : ∀ inner ∈ group.map Occurrence.site,
      weight ctx.fragments inner.selections < ctx.heaviest sites := by
    intro inner hinner
    obtain ⟨o, ho, rfl⟩ := List.mem_map.1 hinner
    obtain ⟨site, hsite, ho⟩ := mem_allOccurrences.1 (hgroup o ho)
    exact Nat.lt_of_lt_of_le (weight_lt_of_mem_occurrences hc ho) (weight_le_heaviest hsite)
  obtain ⟨o, ho⟩ := List.exists_mem_of_ne_nil group hne
  have hpos := Nat.zero_lt_of_lt (hless o.site (List.mem_map_of_mem ho))
  exact (heaviest_lt_iff hpos).2 hless

/-- **The questions below weigh less** than the one that asks them. -/
theorem walk_asksSmaller (hc : NoNestedCycle ctx.fragments) :
    AsksSmaller (fun q : Question => ctx.heaviest q.sites) ctx.walk := by
  intro answer other q h
  cases q with
  | selection scope sites =>
    have hsame : SameFor (fun n s => answer (.selection n s)) (fun n s => other (.selection n s))
        (ctx.allOccurrences scope sites).value :=
      fun base group hne hgroup => h (.selection base _) (heaviest_group_lt hc hne hgroup)
    apply bind_congr_value
    rw [scopeSelection_congr hsame]
  | entries path scope sites =>
    apply bind_congr_value
    apply scopeEntries_congr
    intro place group hgroup
    have hless := heaviest_group_lt hc (ne_nil_of_mem_placeGroups hgroup)
      fun o ho => ((mem_placeGroup hgroup).1 ho).1
    exact entriesAt_congr fun field _ => ⟨h (.selection _ _) hless, h (.entries _ _ _) hless⟩

/-! ## Any higher number of levels -/

theorem heaviest_lt_levels (hsize : 0 < ctx.schema.types.size) (sites : List Site) :
    ctx.heaviest sites < ctx.levels sites :=
  (heaviest_lt_iff (Nat.succ_pos _)).2 fun _ hsite => weight_lt_levels hsize hsite

/-- **The selection of sites is that of any higher number of levels.** -/
theorem selectionWithin_eq_selection (hc : NoNestedCycle ctx.fragments)
    (hs : ctx.schema.isStructLike scope = true) {levels : Nat} (hle : ctx.levels sites ≤ levels) :
    ctx.selectionWithin levels scope sites = ctx.selection scope sites := by
  have hless := heaviest_lt_levels (size_pos_of_isStructLike hs) sites
  have heq := (walk_asksSmaller hc).iterate_eq (ctx.answerWithin 0) (ctx.answerWithin 0) levels _
    (.selection scope sites) (Nat.lt_of_lt_of_le hless hle) hless
  rwa [iterate_walk, iterate_walk] at heq

/-- As many levels as sites can lead through make up the walk, whatever is answered below. -/
theorem iterate_walk_entries (hc : NoNestedCycle ctx.fragments) (bottom : ∀ q : Question, q.Answer)
    (path : List Name) {levels : Nat} (hle : ctx.levels sites ≤ levels) :
    ctx.walk^[levels] bottom (.entries path scope sites) =
      ctx.entriesWithin (ctx.levels sites) path scope sites := by
  by_cases hsize : 0 < ctx.schema.types.size
  · have hless := heaviest_lt_levels hsize sites
    have heq := (walk_asksSmaller hc).iterate_eq bottom (ctx.answerWithin 0) levels _
      (.entries path scope sites) (Nat.lt_of_lt_of_le hless hle) hless
    rwa [iterate_walk] at heq
  · -- without types no field exists, so that nothing is asked
    obtain ⟨levels, rfl⟩ : ∃ n, levels = n + 1 :=
      Nat.exists_eq_add_of_le' (Nat.le_trans (Nat.succ_le_succ (Nat.zero_le _)) hle)
    rw [Function.iterate_succ_apply', QueryContext.levels, entriesWithin]
    apply bind_congr_value
    apply scopeEntries_congr
    intro place group _
    exact entriesAt_congr fun field hf => absurd (Schema.size_pos_of_field? hf) hsize

/-- **The entries of sites are those of any higher number of levels.** -/
theorem entriesWithin_eq_entries (hc : NoNestedCycle ctx.fragments) {levels : Nat}
    (hle : ctx.levels sites ≤ levels) :
    ctx.entriesWithin levels [] scope sites = ctx.entries scope sites := by
  have hwalk : ctx.walk^[levels] (ctx.answerWithin 0) (.entries [] scope sites) =
      ctx.entriesWithin levels [] scope sites := by
    rw [iterate_walk]
    rfl
  exact hwalk.symm.trans (iterate_walk_entries hc (ctx.answerWithin 0) [] hle)

/-- **The walk ends with the entries of the sites.** -/
theorem walk_terminates (hc : NoNestedCycle ctx.fragments) (scope : Name) (sites : List Site) :
    Terminates ctx.walk (.entries [] scope sites) (ctx.entries scope sites) :=
  ⟨ctx.levels sites, fun bottom => iterate_walk_entries hc bottom [] (Nat.le_refl _)⟩

end QueryContext

end StructQL
