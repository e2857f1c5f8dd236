import Mathlib.Algebra.Ring.Nat
import StructQL.Proofs.Gathering.StructSelection

/-!
# The faults of selections

Occurrences are gathered in groups, but what is wrong with them is a matter of each one by itself.

* `Concerns`: an occurrence is gathered for a struct of its scope.
* `mem_faults_selectionWithin`: the faults of sites are those of the occurrences of each site, as
  often as there are structs that the occurrence concerns.
* `mem_faults_append`: **sites have the faults that they have apart.**
* `code_of_mem_selectionWithin`: the codes that the faults of sites have.
* `scopeSelection_congr`: what is gathered depends only on what is gathered of the fields below.
-/

namespace StructQL

theorem mem_leafFaults {type : Name} {occurrences : List Occurrence} {f : Fault} :
    f ∈ leafFaults type occurrences ↔
      ∃ o ∈ occurrences, o.site.isBare = false ∧ f = .subselectionOnLeaf o.parent o.name type := by
  unfold leafFaults
  rw [List.mem_map]
  constructor
  · rintro ⟨o, ho, rfl⟩
    obtain ⟨hmem, hbare⟩ := List.mem_filter.1 ho
    exact ⟨o, hmem, by simpa using hbare, rfl⟩
  · rintro ⟨o, hmem, hbare, rfl⟩
    exact ⟨o, List.mem_filter.2 ⟨hmem, by simpa using hbare⟩, rfl⟩

namespace Checked

variable {α β : Type}

/-- A step depends on the value before it only. -/
theorem bind_congr_value {c : Checked α} {f g : α → Checked β} (h : f c.value = g c.value) :
    c >>= f = c >>= g := by
  change (⟨_, _⟩ : Checked β) = ⟨_, _⟩
  rw [h]

/-- A value without faults is handed on. -/
theorem bind_pure_left (a : α) (f : α → Checked β) : (pure a : Checked α) >>= f = f a := rfl

theorem bind_of_faults_eq_nil {c : Checked α} (h : c.faults = []) (f : α → Checked β) :
    c >>= f = f c.value := by
  change (⟨_, c.faults ++ _⟩ : Checked β) = _
  rw [h]
  rfl

theorem each_congr {l : List α} {f g : α → Checked β} (h : ∀ a ∈ l, f a = g a) :
    each l f = each l g := by
  unfold each
  rw [List.map_congr_left h]

theorem each_map {γ : Type} (l : List γ) (k : γ → α) (f : α → Checked β) :
    each (l.map k) f = each l fun a => f (k a) := by
  unfold each
  rw [List.map_map]
  rfl

/-- Checks that find nothing give their values. -/
theorem each_eq_pure {l : List α} {f : α → Checked β} {g : α → β} (h : ∀ a ∈ l, f a = pure (g a)) :
    each l f = pure (l.map g) := by
  rw [each_congr h]
  simp [each, pure]

end Checked

namespace QueryContext

open Checked

variable {ctx : QueryContext} {gather : Name → List Site → Checked (Option Selection)}
  {scope type name : Name} {sites : List Site} {group occurrences : List Occurrence} {f : Fault}

theorem mem_faults_allOccurrences :
    f ∈ (ctx.allOccurrences scope sites).faults ↔
      ∃ site ∈ sites, f ∈ (ctx.occurrences scope site).faults := by
  simp [allOccurrences]

/-- The occurrences of one site. -/
theorem allOccurrences_singleton {site : Site} (h : ctx.occurrences scope site = pure occurrences) :
    ctx.allOccurrences scope [site] = pure occurrences := by
  unfold allOccurrences each
  simp [h, bind, pure]

/-! ## One occurrence at a time -/

/-- **What is gathered has the faults of each of its sites**, and no others. -/
def SiteBySite (ctx : QueryContext)
    (gather : Name → List Site → Checked (Option Selection)) : Prop :=
  ∀ base, ctx.schema.isStructLike base = true → ∀ sites f,
    f ∈ (gather base sites).faults ↔ ∃ site ∈ sites, f ∈ (gather base [site]).faults

/-- The faults of what an occurrence selects of a field that exists. -/
def foundFaults (ctx : QueryContext) (gather : Name → List Site → Checked (Option Selection))
    (field : Field) (o : Occurrence) : List Fault :=
  if ctx.schema.isStructLike field.type.base then (gather field.type.base [o.site]).faults
  else leafFaults field.type.base [o]

/-- The faults of what an occurrence selects of the value of its field. -/
def selectedFaults (ctx : QueryContext)
    (gather : Name → List Site → Checked (Option Selection)) (type : Name) (o : Occurrence) :
    List Fault :=
  if o.name = Name.typename then leafFaults Name.string [o]
  else
    match ctx.missingFault? o with
    | some fault => [fault]
    | none =>
      match ctx.schema.field? type o.name with
      | some field => ctx.foundFaults gather field o
      | none => []

/-- **The faults of an occurrence of a struct**: in how it is written, and in what it selects. -/
def occurrenceFaults (ctx : QueryContext)
    (gather : Name → List Site → Checked (Option Selection)) (type : Name) (o : Occurrence) :
    List Fault :=
  ctx.formFaults o ++ ctx.selectedFaults gather type o

theorem mem_existing {o : Occurrence} :
    o ∈ (ctx.existing group).value ↔ o ∈ group ∧ ctx.missingFault? o = none := by
  unfold existing
  rw [List.mem_filter, Bool.not_eq_true', Option.isSome_eq_false_iff, Option.isNone_iff_eq_none]

theorem mem_faults_fieldSelection (hg : ctx.SiteBySite gather) (hname : name ≠ Name.typename) :
    f ∈ (ctx.fieldSelection gather type name group).faults ↔
      (∃ o ∈ group, ctx.missingFault? o = some f) ∨
        ∃ o ∈ group, ctx.missingFault? o = none ∧
          ∃ field, ctx.schema.field? type name = some field ∧ f ∈ ctx.foundFaults gather field o := by
  unfold fieldSelection
  rw [if_neg hname, faults_bind, List.mem_append]
  refine or_congr List.mem_filterMap ?_
  -- what is left concerns the occurrences whose field exists, if there is one
  have hfound : ∀ o, o ∈ (ctx.existing group).value ↔ _ := fun o => mem_existing
  generalize (ctx.existing group).value = found at hfound ⊢
  have hsplit : (∃ o ∈ group, ctx.missingFault? o = none ∧
      ∃ field, ctx.schema.field? type name = some field ∧ f ∈ ctx.foundFaults gather field o) ↔
      ∃ o ∈ found, ∃ field, ctx.schema.field? type name = some field ∧
        f ∈ ctx.foundFaults gather field o := by
    constructor
    · rintro ⟨o, ho, hm, hrest⟩
      exact ⟨o, (hfound o).2 ⟨ho, hm⟩, hrest⟩
    · rintro ⟨o, ho, hrest⟩
      exact ⟨o, ((hfound o).1 ho).1, ((hfound o).1 ho).2, hrest⟩
  rw [hsplit]
  cases found with
  | nil => simp
  | cons first rest =>
    cases hfield : ctx.schema.field? type name with
    | none => simp
    | some field =>
      simp only [Option.some.injEq, exists_eq_left']
      unfold foundFaults
      by_cases hlike : ctx.schema.isStructLike field.type.base = true
      · simp only [hlike, if_true]
        rw [hg _ hlike]
        simp only [List.mem_map, exists_exists_and_eq_and]
      · simp only [hlike, Bool.false_eq_true, if_false]
        change f ∈ leafFaults _ _ ↔ _
        simp only [mem_leafFaults, List.mem_singleton, exists_eq_left]

/-- The faults of a group of occurrences of one field are those of each of them. -/
theorem mem_faults_of_sameName (hg : ctx.SiteBySite gather) (hname : ∀ o ∈ group, o.name = name) :
    f ∈ (ctx.fieldSelection gather type name group).faults ↔
      ∃ o ∈ group, f ∈ ctx.selectedFaults gather type o := by
  by_cases htypename : name = Name.typename
  · have hleaf : (ctx.fieldSelection gather type name group).faults =
        leafFaults Name.string group := by
      unfold fieldSelection
      rw [if_pos htypename]
      rfl
    rw [hleaf, mem_leafFaults]
    refine exists_congr fun o => and_congr_right fun ho => ?_
    rw [selectedFaults, if_pos ((hname o ho).trans htypename), mem_leafFaults]
    simp
  · rw [mem_faults_fieldSelection hg htypename, ← exists_or]
    refine exists_congr fun o => ?_
    rw [← and_or_left]
    refine and_congr_right fun ho => ?_
    rw [selectedFaults, if_neg (by rwa [hname o ho]), hname o ho]
    cases ctx.missingFault? o with
    | some fault => simp [eq_comm]
    | none => cases ctx.schema.field? type name <;> simp

/-- **The faults of the occurrences of a struct** are those of each of them. -/
theorem mem_faults_fieldSet (hg : ctx.SiteBySite gather) :
    f ∈ (ctx.fieldSet gather type occurrences).faults ↔
      ∃ o ∈ occurrences, f ∈ ctx.occurrenceFaults gather type o := by
  have hgroups : f ∈ (ctx.fieldSet gather type occurrences).faults ↔
      f ∈ occurrences.flatMap ctx.formFaults ∨ ∃ name group,
        (name, group) ∈ fieldGroups occurrences ∧
          f ∈ (ctx.fieldSelection gather type name group).faults := by
    unfold fieldSet fieldGroups
    simp [faulty]
  rw [hgroups, List.mem_flatMap]
  unfold occurrenceFaults
  constructor
  · rintro (⟨o, ho, hf⟩ | ⟨name, group, hgroup, hf⟩)
    · exact ⟨o, ho, List.mem_append_left _ hf⟩
    · have hname : ∀ o ∈ group, o.name = name := fun o ho => ((mem_fieldGroup hgroup).1 ho).2
      obtain ⟨o, ho, hf⟩ := (mem_faults_of_sameName hg hname).1 hf
      exact ⟨o, ((mem_fieldGroup hgroup).1 ho).1, List.mem_append_right _ hf⟩
  · rintro ⟨o, ho, hf⟩
    rcases List.mem_append.1 hf with hf | hf
    · exact .inl ⟨o, ho, hf⟩
    · obtain ⟨group, hgroup⟩ := exists_fieldGroup ho
      have hname : ∀ other ∈ group, other.name = o.name :=
        fun other hother => ((mem_fieldGroup hgroup).1 hother).2
      have hmem : o ∈ group := (mem_fieldGroup hgroup).2 ⟨ho, rfl⟩
      exact .inr ⟨o.name, group, hgroup, (mem_faults_of_sameName hg hname).2 ⟨o, hmem, hf⟩⟩

/-! ## One site at a time -/

/-- **An occurrence is gathered for a struct** of its scope. -/
def Concerns (ctx : QueryContext) (scope type : Name) (o : Occurrence) : Prop :=
  type ∈ ctx.schema.possibleTypes scope ∧
    ((ctx.schema.structUnion? scope).isSome = true → type ∈ ctx.schema.possibleTypes o.parent)

/-- The faults of a scope are those of the occurrences of each of its structs. -/
theorem mem_faults_scopeSelection (hg : ctx.SiteBySite gather)
    (hs : ctx.schema.isStructLike scope = true) :
    f ∈ (ctx.scopeSelection gather scope occurrences).faults ↔
      ∃ o ∈ occurrences, ∃ type, ctx.Concerns scope type o ∧
        f ∈ ctx.occurrenceFaults gather type o := by
  have htypes : f ∈ (ctx.scopeSelection gather scope occurrences).faults ↔
      ∃ type ∈ ctx.schema.possibleTypes scope,
        f ∈ (ctx.fieldSet gather type (ctx.concerning scope type occurrences)).faults := by
    unfold scopeSelection concerning
    cases hunion : ctx.schema.structUnion? scope with
    | none =>
      rw [Schema.possibleTypes_of_struct hs hunion]
      simp
    | some union =>
      rw [Schema.possibleTypes_of_structUnion hunion]
      simp
  rw [htypes]
  simp only [mem_faults_fieldSet hg, mem_concerning, Concerns]
  constructor
  · rintro ⟨type, htype, o, ⟨ho, hcovers⟩, hf⟩
    exact ⟨o, ho, type, ⟨htype, hcovers⟩, hf⟩
  · rintro ⟨o, ho, type, ⟨htype, hcovers⟩, hf⟩
    exact ⟨type, htype, o, ⟨ho, hcovers⟩, hf⟩

/-- The faults of sites are those of each of them, if this holds of what is gathered below. -/
theorem mem_faults_succ {levels : Nat} (hg : ctx.SiteBySite (ctx.selectionWithin levels))
    (hs : ctx.schema.isStructLike scope = true) :
    f ∈ (ctx.selectionWithin (levels + 1) scope sites).faults ↔
      ∃ site ∈ sites, f ∈ (ctx.occurrences scope site).faults ∨
        ∃ o ∈ (ctx.occurrences scope site).value, ∃ type, ctx.Concerns scope type o ∧
          f ∈ ctx.occurrenceFaults (ctx.selectionWithin levels) type o := by
  have hparts : f ∈ (ctx.selectionWithin (levels + 1) scope sites).faults ↔
      f ∈ (ctx.allOccurrences scope sites).faults ∨
        f ∈ (ctx.scopeSelection (ctx.selectionWithin levels) scope
          (ctx.allOccurrences scope sites).value).faults := by
    rw [selectionWithin, faults_bind, faults_bind, List.mem_append, List.mem_append]
    refine or_congr_right (or_iff_left ?_)
    split
    · exact List.not_mem_nil
    · split <;> exact List.not_mem_nil
  rw [hparts, mem_faults_allOccurrences, mem_faults_scopeSelection hg hs]
  simp only [mem_allOccurrences]
  constructor
  · rintro (⟨site, hsite, hf⟩ | ⟨o, ⟨site, hsite, ho⟩, hrest⟩)
    · exact ⟨site, hsite, .inl hf⟩
    · exact ⟨site, hsite, .inr ⟨o, ho, hrest⟩⟩
  · rintro ⟨site, hsite, hf | ⟨o, ho, hrest⟩⟩
    · exact .inl ⟨site, hsite, hf⟩
    · exact .inr ⟨o, ⟨site, hsite, ho⟩, hrest⟩

theorem siteBySite_selectionWithin (levels : Nat) :
    ctx.SiteBySite (ctx.selectionWithin levels) := by
  induction levels with
  | zero =>
    intro base _ sites f
    simp [selectionWithin]
  | succ levels ih =>
    intro base hbase sites f
    rw [mem_faults_succ ih hbase]
    simp only [mem_faults_succ ih hbase, List.mem_singleton, exists_eq_left]

/-- **The faults of sites are those of the occurrences of each of them**, as one of every struct
that the occurrence concerns. -/
theorem mem_faults_selectionWithin {levels : Nat} (hs : ctx.schema.isStructLike scope = true) :
    f ∈ (ctx.selectionWithin (levels + 1) scope sites).faults ↔
      ∃ site ∈ sites, f ∈ (ctx.occurrences scope site).faults ∨
        ∃ o ∈ (ctx.occurrences scope site).value, ∃ type, ctx.Concerns scope type o ∧
          f ∈ ctx.occurrenceFaults (ctx.selectionWithin levels) type o :=
  mem_faults_succ (siteBySite_selectionWithin levels) hs

/-- **Sites have the faults that they have apart.** -/
theorem mem_faults_append {levels : Nat} (hs : ctx.schema.isStructLike scope = true)
    (others : List Site) :
    f ∈ (ctx.selectionWithin levels scope (sites ++ others)).faults ↔
      f ∈ (ctx.selectionWithin levels scope sites).faults ∨
        f ∈ (ctx.selectionWithin levels scope others).faults := by
  have hg : ctx.SiteBySite (ctx.selectionWithin levels) := siteBySite_selectionWithin levels
  rw [hg scope hs (sites ++ others), hg scope hs sites, hg scope hs others]
  simp only [List.mem_append, or_and_right, exists_or]

/-! ## Codes -/

/-- The codes of the faults of expansion. -/
theorem code_of_mem_expand (scope : Name) (nodes : List Query.Node) (included : Bool)
    (unopened : Table Query.Fragment) (hf : f ∈ (ctx.expand scope nodes included unopened).faults) :
    f.code = .invalidFragmentTarget ∨ f.code = .unknownFragment := by
  obtain ⟨node, hnode, hf⟩ := mem_faults_expand.1 hf
  match node with
  | .field aliasName name arguments directives selections =>
    rw [expand_field] at hf
    cases hf
  | .inline condition directives selections =>
    rw [expand_inline] at hf
    split at hf
    · exact code_of_mem_expand _ _ _ _ hf
    · rw [List.mem_singleton.1 hf]
      exact .inl rfl
  | .spread name directives =>
    cases hfind : ctx.fragments.find? name with
    | none =>
      rw [expand_spread_none hfind] at hf
      rw [List.mem_singleton.1 hf]
      exact .inr rfl
    | some fragment =>
      rw [expand_spread hfind] at hf
      split at hf
      · split at hf
        · exact code_of_mem_expand _ _ _ _ hf
        · rw [List.mem_singleton.1 hf]
          exact .inl rfl
      · cases hf
termination_by (unopened.size, sizeOf nodes)
decreasing_by
  · apply Prod.Lex.right
    have := List.sizeOf_lt_of_mem hnode
    simp only [Query.Node.inline.sizeOf_spec] at this
    omega
  · exact .left _ _ (Table.size_erase_lt ‹_›)

/-- **The codes of the faults of selections.** -/
def selectionCodes : List FaultCode :=
  [.aliasNotAllowed, .directiveNotAllowed, .argumentsNotAllowed, .unknownField, .unknownFragment,
    .unknownMemberFieldOnUnion, .subselectionOnLeaf, .invalidFragmentTarget]

theorem code_of_mem_formFaults {o : Occurrence} (hf : f ∈ ctx.formFaults o) :
    f.code ∈ selectionCodes := by
  unfold formFaults at hf
  rcases List.mem_append.1 hf with hf | hf
  · rcases List.mem_append.1 hf with hf | hf
    · split at hf
      · rw [List.mem_singleton.1 hf]
        simp [Fault.code, selectionCodes]
      · cases hf
    · split at hf
      · cases hf
      · rw [List.mem_singleton.1 hf]
        simp [Fault.code, selectionCodes]
  · obtain ⟨d, -, rfl⟩ := List.mem_map.1 hf
    simp [Fault.code, selectionCodes]

theorem code_of_missingFault? {o : Occurrence} (hf : ctx.missingFault? o = some f) :
    f.code ∈ selectionCodes := by
  unfold missingFault? at hf
  split at hf
  · split at hf
    · cases hf
    · cases hf
      simp [Fault.code, selectionCodes]
  · split at hf
    · cases hf
    · cases hf
      simp [Fault.code, selectionCodes]
  · cases hf
    simp [Fault.code, selectionCodes]

theorem code_of_mem_leafFaults (hf : f ∈ leafFaults type occurrences) :
    f.code ∈ selectionCodes := by
  obtain ⟨o, -, -, rfl⟩ := mem_leafFaults.1 hf
  simp [Fault.code, selectionCodes]

/-- **The faults of selections have codes of selections.** -/
theorem code_of_mem_selectionWithin (ctx : QueryContext) :
    ∀ (levels : Nat) (scope : Name) (sites : List Site), ctx.schema.isStructLike scope = true →
      f ∈ (ctx.selectionWithin levels scope sites).faults → f.code ∈ selectionCodes := by
  intro levels
  induction levels with
  | zero => intro scope sites _ hf; cases hf
  | succ levels ih =>
    intro scope sites hs hf
    obtain ⟨site, -, hf | ⟨o, -, type, -, hf⟩⟩ := (mem_faults_selectionWithin hs).1 hf
    · rcases code_of_mem_expand _ _ _ _ hf with h | h <;> rw [h] <;> decide
    rcases List.mem_append.1 hf with hf | hf
    · exact code_of_mem_formFaults hf
    unfold selectedFaults at hf
    split at hf
    · exact code_of_mem_leafFaults hf
    split at hf
    · rename_i fault hmissing
      rw [List.mem_singleton.1 hf]
      exact code_of_missingFault? hmissing
    split at hf
    · rename_i field _
      unfold foundFaults at hf
      split at hf
      · rename_i hlike
        exact ih field.type.base _ hlike hf
      · exact code_of_mem_leafFaults hf
    · cases hf

/-! ## Other ways of gathering -/

/-- Two ways of gathering give the same for the occurrences, group by group. -/
def SameFor (gather other : Name → List Site → Checked (Option Selection))
    (occurrences : List Occurrence) : Prop :=
  ∀ base group, group ≠ [] → (∀ o ∈ group, o ∈ occurrences) →
    gather base (group.map Occurrence.site) = other base (group.map Occurrence.site)

variable {other : Name → List Site → Checked (Option Selection)}

theorem SameFor.subset (h : SameFor gather other occurrences)
    (hsub : ∀ o ∈ group, o ∈ occurrences) : SameFor gather other group :=
  fun base inner hne hinner => h base inner hne fun o ho => hsub o (hinner o ho)

theorem fieldSelection_congr (h : SameFor gather other group) :
    ctx.fieldSelection gather type name group = ctx.fieldSelection other type name group := by
  unfold fieldSelection
  split
  · rfl
  · apply bind_congr_value
    have hsub : ∀ o ∈ (ctx.existing group).value, o ∈ group := fun o ho => (mem_existing.1 ho).1
    generalize (ctx.existing group).value = found at hsub ⊢
    cases found with
    | nil => rfl
    | cons first rest =>
      cases ctx.schema.field? type name with
      | none => rfl
      | some field =>
        dsimp only
        rw [h field.type.base (first :: rest) (List.cons_ne_nil _ _) hsub]

theorem fieldSet_congr (h : SameFor gather other occurrences) :
    ctx.fieldSet gather type occurrences = ctx.fieldSet other type occurrences := by
  unfold fieldSet
  have hgroup : ∀ p ∈ fieldGroups occurrences,
      ctx.fieldSelection gather type p.1 p.2 = ctx.fieldSelection other type p.1 p.2 :=
    fun p hp => fieldSelection_congr (h.subset fun o ho => ((mem_fieldGroup hp).1 ho).1)
  dsimp only
  rw [each_congr fun p hp => by rw [hgroup p hp]]

theorem scopeSelection_congr (h : SameFor gather other occurrences) :
    ctx.scopeSelection gather scope occurrences = ctx.scopeSelection other scope occurrences := by
  unfold scopeSelection
  split
  · rw [fieldSet_congr h]
  · rw [each_congr fun member _ => by
      rw [fieldSet_congr (h.subset fun o ho => List.mem_of_mem_filter ho)]]

theorem size_pos_of_isStructLike (hs : ctx.schema.isStructLike scope = true) :
    0 < ctx.schema.types.size := by
  obtain ⟨type, htype, -⟩ := Schema.isStructLike_eq_true_iff.1 hs
  exact List.length_pos_of_mem (Schema.mem_of_type? htype)

/-! ## Levels -/

/-- The fields written in the sites add to those written in fragments. -/
theorem fieldCount_eq_add (sites : List Site) :
    ctx.fieldCount sites = ctx.fieldCount [] +
      (sites.map fun site => Query.fieldCountOf site.selections).sum := by
  have hsites : ∀ sites : List Site,
      sites.foldr (fun site n => Query.fieldCountOf site.selections + n) 0 =
        (sites.map fun site => Query.fieldCountOf site.selections).sum := fun sites => by
    rw [List.sum_eq_foldr, List.foldr_map]
  have hfragments : ∀ (l : List Query.Fragment) (n : Nat),
      l.foldr (fun f n => Query.fieldCountOf f.selections + n) n =
        l.foldr (fun f n => Query.fieldCountOf f.selections + n) 0 + n := by
    intro l n
    induction l with
    | nil => simp
    | cons f l ih => rw [List.foldr_cons, List.foldr_cons, ih, Nat.add_assoc]
  unfold fieldCount
  rw [hsites, hfragments]
  rfl

/-- What is written in more sites leads through more levels. -/
theorem levels_le_append (ctx : QueryContext) (sites others : List Site) :
    ctx.levels sites ≤ ctx.levels (sites ++ others) ∧
      ctx.levels others ≤ ctx.levels (sites ++ others) := by
  unfold levels
  rw [fieldCount_eq_add sites, fieldCount_eq_add others, fieldCount_eq_add (sites ++ others),
    List.map_append, List.sum_append]
  constructor <;> refine Nat.succ_le_succ (Nat.mul_le_mul_left _ ?_) <;> omega

end QueryContext

end StructQL
