import StructQL.Proofs.Expansion.Alike
import StructQL.Proofs.Fault.Comparison
import StructQL.Proofs.Gathering.Levels

/-!
# Gathering side by side

Two contexts that expand sites alike gather alike, in each way in which checks may be compared. There is
a lemma for each function that gathers, and each is about what the function makes of compared arguments.

* `Comparison.Expands`: two contexts have compared occurrences of compared sites.
* `Comparison.Builds`: selections and entries are compared by what they are made of.
* `Expands.fieldSet`, `Expands.scopeSelection`: what is selected of a struct or of a struct union.
* `Expands.selectionWithin`: **compared sites have compared selections.**
* `Expands.entriesWithin`, `Expands.entries`: **they have compared entries**, at any number of levels and
  to their full depth.
-/

namespace StructQL

open List

namespace Comparison

open Pairs

variable (cmp : Comparison)

/-- **Two contexts expand alike**: they differ in nothing that decides what is wrong with an occurrence,
and compared sites have compared occurrences. -/
structure Expands (S : Site → Site → Prop) (O : Occurrence → Occurrence → Prop)
    (ctx other : QueryContext) : Prop where
  schema : ctx.schema = other.schema
  isBare : ∀ site site', S site site' → site.isBare = site'.isBare
  included : ∀ site site', S site site' → cmp.flags site.included site'.included
  site : ∀ o o', O o o' → S o.site o'.site
  parent : ∀ o o', O o o' → o.parent = o'.parent
  aliasName : ∀ o o', O o o' → o.aliasName = o'.aliasName
  name : ∀ o o', O o o' → o.name = o'.name
  formFaults : ∀ o o', O o o' → ctx.formFaults o = other.formFaults o'
  occurrences : ∀ scope site site', S site site' →
    cmp.checks (cmp.lists O) (ctx.occurrences scope site) (other.occurrences scope site')

/-- **Sets of fields of one struct** are compared field by field. None is listed twice. -/
structure Sets (Q : Selection → Selection → Prop) (x y : FieldSet Selection) : Prop where
  typeName : x.typeName = y.typeName
  keys : (y.fields.map Prod.fst).Nodup
  fields : cmp.parts (SameKey Q) x.fields y.fields

/-- **Selections and entries are compared** if they are made of what is. -/
structure Builds (Q : Selection → Selection → Prop) (E : Entry → Entry → Prop) : Prop where
  whole : Q .whole .whole
  struct : ∀ x y, cmp.Sets Q x y → Q (.struct x) (.struct y)
  union : ∀ name l m, (m.map Prod.fst).Nodup → cmp.groups (SameKey (cmp.Sets Q)) l m →
    Q (.union name l) (.union name m)
  settled : ∀ a b s t, cmp.flags a b → Q s t →
    Q (if a then .whole else s) (if b then .whole else t)
  entry : ∀ path parent name type s t, Q s t →
    E ⟨path, parent, name, type, s⟩ ⟨path, parent, name, type, t⟩

/-- **Two ways to gather are compared**: what they make of compared sites is. -/
def Gathers (S : Site → Site → Prop) (Q : Selection → Selection → Prop)
    (gather gather' : Name → List Site → Checked (Option Selection)) : Prop :=
  ∀ base sites others, cmp.lists S sites others →
    cmp.checks (cmp.options Q) (gather base sites) (gather' base others)

/-- **Two ways to collect entries are compared**: what they make of compared sites is. -/
def Descends (S : Site → Site → Prop) (E : Entry → Entry → Prop)
    (descend descend' : List Name → Name → List Site → Checked (List Entry)) : Prop :=
  ∀ path base sites others, cmp.lists S sites others →
    cmp.checks (cmp.parts E) (descend path base sites) (descend' path base others)

end Comparison

/-! ## What is made item by item -/

/-- Leaves are checked one by one. -/
theorem leafFaults_eq_flatMap (type : Name) (occurrences : List Occurrence) :
    leafFaults type occurrences = occurrences.flatMap fun o =>
      if o.site.isBare then [] else [.subselectionOnLeaf o.parent o.name type] := by
  unfold leafFaults
  induction occurrences with
  | nil => rfl
  | cons o rest ih =>
    rw [flatMap_cons, ← ih]
    cases hbare : o.site.isBare <;> simp [hbare]

theorem QueryContext.placed_eq_map (ctx : QueryContext) (scope : Name) (o : Occurrence) :
    ctx.placed scope o = (if o.name = Name.typename then [] else ctx.resolvers scope o).map
      fun parent => (⟨parent, o.responseKey, o.name⟩, o) := by
  unfold placed
  split <;> rfl

/-- Whether there is a selection is decided first, and then whether it is the whole value. -/
theorem QueryContext.settled_eq_pure (included bare : Bool) (s : Selection) :
    (if !included then return none else if bare then return some .whole else return some s) =
      (pure (if included then some (if bare then .whole else s) else none) :
        Checked (Option Selection)) := by
  cases included <;> cases bare <;> rfl

namespace Comparison.Expands

open QueryContext Checked Pairs

variable {cmp : Comparison} {S : Site → Site → Prop} {O : Occurrence → Occurrence → Prop}
  {Q : Selection → Selection → Prop} {E : Entry → Entry → Prop} {ctx other : QueryContext}
  {scope type name : Name} {l m : List Occurrence} {path : List Name} {place : Place}
  {gather gather' : Name → List Site → Checked (Option Selection)}
  {descend descend' : List Name → Name → List Site → Checked (List Entry)}

theorem missingFault? (h : cmp.Expands S O ctx other) {o o' : Occurrence} (ho : O o o') :
    ctx.missingFault? o = other.missingFault? o' := by
  unfold QueryContext.missingFault?
  rw [h.schema, h.parent o o' ho, h.name o o' ho]

theorem sites (h : cmp.Expands S O ctx other) (hl : cmp.lists O l m) :
    cmp.lists S (l.map Occurrence.site) (m.map Occurrence.site) :=
  cmp.map hl h.site

theorem leafSelection (h : cmp.Expands S O ctx other) (hb : cmp.Builds Q E) (hl : cmp.lists O l m) :
    cmp.checks (cmp.options Q) (leafSelection type l) (leafSelection type m) := by
  unfold QueryContext.leafSelection
  rw [leafFaults_eq_flatMap, leafFaults_eq_flatMap type m]
  refine cmp.found hl ?_ (cmp.kept (cmp.any hl ?_) hb.whole)
  · intro o o' ho
    rw [h.isBare _ _ (h.site o o' ho), h.parent o o' ho, h.name o o' ho]
  · intro o o' ho
    exact h.included _ _ (h.site o o' ho)

theorem existing (h : cmp.Expands S O ctx other) (hl : cmp.lists O l m) :
    cmp.checks (cmp.lists O) (ctx.existing l) (other.existing m) := by
  unfold QueryContext.existing
  rw [filterMap_eq_flatMap_toList, filterMap_eq_flatMap_toList]
  refine cmp.found hl ?_ (cmp.filter hl ?_)
  · intro o o' ho
    rw [h.missingFault? ho]
  · intro o o' ho
    rw [h.missingFault? ho]

theorem fieldSelection (h : cmp.Expands S O ctx other) (hb : cmp.Builds Q E)
    (hgather : cmp.Gathers S Q gather gather') (hl : cmp.lists O l m) :
    cmp.checks (cmp.options Q) (ctx.fieldSelection gather type name l)
      (other.fieldSelection gather' type name m) := by
  unfold QueryContext.fieldSelection
  by_cases hname : name = Name.typename
  · rw [if_pos hname, if_pos hname]
    exact h.leafSelection hb hl
  · rw [if_neg hname, if_neg hname]
    refine cmp.bind (h.existing hl) fun found found' hfound => ?_
    rw [h.schema]
    cases found with
    | nil =>
      obtain rfl := (cmp.nil_iff hfound).1 rfl
      exact cmp.pure cmp.none
    | cons o rest =>
      have hne : found' ≠ [] := mt (cmp.nil_iff hfound).2 (cons_ne_nil _ _)
      obtain ⟨o', rest', rfl⟩ := exists_cons_of_ne_nil hne
      cases other.schema.field? type name with
      | none => exact cmp.pure cmp.none
      | some field =>
        dsimp only
        by_cases hlike : other.schema.isStructLike field.type.base = true
        · rw [if_pos hlike, if_pos hlike]
          exact hgather _ _ _ (h.sites hfound)
        · rw [if_neg hlike, if_neg hlike]
          exact h.leafSelection hb hfound

/-- **The fields that occurrences select of a struct are compared.** -/
theorem fieldSet (h : cmp.Expands S O ctx other) (hb : cmp.Builds Q E)
    (hgather : cmp.Gathers S Q gather gather') (type : Name) (hl : cmp.lists O l m) :
    cmp.checks (cmp.Sets Q) (ctx.fieldSet gather type l) (other.fieldSet gather' type m) := by
  have hgroups : cmp.groups (SameKey (cmp.lists O)) (fieldGroups l) (fieldGroups m) := by
    refine cmp.group (cmp.map hl ?_)
    intro o o' ho
    exact ⟨h.name o o' ho, ho⟩
  have hrel : cmp.checks (fun x y => x.typeName = y.typeName ∧
      cmp.parts (SameKey Q) x.fields y.fields)
      (ctx.fieldSet gather type l) (other.fieldSet gather' type m) := by
    unfold QueryContext.fieldSet
    refine cmp.bind (R := fun _ _ => True) (cmp.found hl h.formFaults trivial) fun _ _ _ =>
      cmp.bind (R := cmp.groups (cmp.options (SameKey Q))) (cmp.each_group hgroups ?_) ?_
    · rintro ⟨name, group⟩ ⟨_, group'⟩ ⟨rfl, hgroup⟩
      refine cmp.bind (h.fieldSelection hb hgather hgroup) fun s t hst =>
        cmp.pure (cmp.map_option hst ?_)
      intro s t hst
      exact ⟨rfl, hst⟩
    · intro fields fields' hfields
      exact cmp.pure ⟨rfl, cmp.filterMap hfields⟩
  exact cmp.imp hrel fun ⟨htype, hfields⟩ => ⟨htype, nodup_fieldSet, hfields⟩

theorem concerning (h : cmp.Expands S O ctx other) (member : Name) (hl : cmp.lists O l m) :
    cmp.lists O (l.filter (ctx.concerns member)) (m.filter (other.concerns member)) := by
  refine cmp.filter hl ?_
  intro o o' ho
  unfold concerns
  rw [h.schema, h.parent o o' ho]

/-- **The selections of a scope are compared**: the fields of the struct, or those of each member. -/
theorem scopeSelection (h : cmp.Expands S O ctx other) (hb : cmp.Builds Q E)
    (hgather : cmp.Gathers S Q gather gather') (hl : cmp.lists O l m) :
    cmp.checks Q (ctx.scopeSelection gather scope l) (other.scopeSelection gather' scope m) := by
  unfold QueryContext.scopeSelection
  rw [h.schema]
  cases other.schema.structUnion? scope with
  | none =>
    refine cmp.bind (h.fieldSet hb hgather scope hl) ?_
    intro x y hxy
    exact cmp.pure (hb.struct x y hxy)
  | some union =>
    have hmembers : cmp.checks (cmp.groups (SameKey (cmp.Sets Q)))
        (Checked.each (distinctNames union.members) fun member => do
          return (member, ← ctx.fieldSet gather member (l.filter (ctx.concerns member))))
        (Checked.each (distinctNames union.members) fun member => do
          return (member, ← other.fieldSet gather' member (m.filter (other.concerns member)))) := by
      refine cmp.each_group (cmp.refl_groups _) ?_
      rintro member _ rfl
      refine cmp.bind (h.fieldSet hb hgather member (h.concerning member hl)) ?_
      intro x y hxy
      exact cmp.pure ⟨rfl, hxy⟩
    -- no member is listed twice
    have hunion : cmp.checks (fun x y => Q (.union scope x) (.union scope y)) _ _ :=
      cmp.imp hmembers <| hb.union scope _ _
        (by simp [Function.comp_def, nodup_distinctNames])
    exact cmp.bind hunion fun x y hxy => cmp.pure hxy

theorem allOccurrences (h : cmp.Expands S O ctx other) (scope : Name) {sites others : List Site}
    (hs : cmp.lists S sites others) :
    cmp.checks (cmp.lists O) (ctx.allOccurrences scope sites)
      (other.allOccurrences scope others) :=
  cmp.each_flatten hs (h.occurrences scope)

/-- **The selections of sites are compared**, at any number of levels. -/
theorem selectionWithin (h : cmp.Expands S O ctx other) (hb : cmp.Builds Q E) :
    ∀ levels, cmp.Gathers S Q (ctx.selectionWithin levels) (other.selectionWithin levels) := by
  intro levels
  induction levels with
  | zero =>
    intro scope sites others _
    exact cmp.pure cmp.none
  | succ levels ih =>
    intro scope sites others hs
    have hbare : cmp.flags (sites.any fun site => site.isBare && site.included)
        (others.any fun site => site.isBare && site.included) := by
      refine cmp.any hs ?_
      intro site site' hsite
      rw [h.isBare site site' hsite]
      exact cmp.and _ (h.included site site' hsite)
    rw [QueryContext.selectionWithin, QueryContext.selectionWithin]
    refine cmp.bind (h.allOccurrences scope hs) fun l m hl =>
      cmp.bind (h.scopeSelection hb ih hl) fun s t hst => ?_
    rw [settled_eq_pure, settled_eq_pure]
    exact cmp.pure (cmp.kept (cmp.any hs h.included) (hb.settled _ _ s t hbare hst))

/-! ## The entries -/

theorem resolvers (h : cmp.Expands S O ctx other) {o o' : Occurrence} (ho : O o o') :
    ctx.resolvers scope o = other.resolvers scope o' := by
  unfold QueryContext.resolvers
  rw [h.schema, h.parent o o' ho, h.name o o' ho]

theorem placeGroups (h : cmp.Expands S O ctx other) (scope : Name) (hl : cmp.lists O l m) :
    cmp.groups (SameKey (cmp.lists O)) (ctx.placeGroups scope l) (other.placeGroups scope m) := by
  refine cmp.group (cmp.flatMap hl ?_)
  intro o o' ho
  have hkey : o.responseKey = o'.responseKey := by
    rw [Occurrence.responseKey, Occurrence.responseKey, h.aliasName o o' ho, h.name o o' ho]
  rw [placed_eq_map, placed_eq_map, h.resolvers ho, hkey, h.name o o' ho]
  refine cmp.map (cmp.refl _) ?_
  rintro parent _ rfl
  exact ⟨rfl, ho⟩

theorem entriesAt (h : cmp.Expands S O ctx other) (hb : cmp.Builds Q E)
    (hgather : cmp.Gathers S Q gather gather') (hdescend : cmp.Descends S E descend descend')
    (hl : cmp.lists O l m) :
    cmp.checks (cmp.parts E) (ctx.entriesAt gather descend path place l)
      (other.entriesAt gather' descend' path place m) := by
  have hsites := h.sites hl
  have hcomposite : ctx.isComposite = other.isComposite := by
    funext type
    unfold isComposite
    rw [h.schema]
  unfold QueryContext.entriesAt
  dsimp only
  rw [h.schema, hcomposite]
  cases other.schema.field? place.parent place.fieldName with
  | none => exact cmp.fault _ cmp.nil
  | some field =>
    dsimp only
    by_cases hlike : other.schema.isStructLike field.type.base = true
    · rw [if_pos hlike, if_pos hlike]
      refine cmp.bind (hgather _ _ _ hsites) fun s t hst =>
        cmp.pure (cmp.toList (cmp.map_option hst ?_))
      intro s t hst
      exact hb.entry _ _ _ _ s t hst
    · rw [if_neg hlike, if_neg hlike]
      split
      · exact hdescend _ _ _ _ hsites
      · exact cmp.pure cmp.nil

theorem scopeEntries (h : cmp.Expands S O ctx other) (hb : cmp.Builds Q E)
    (hgather : cmp.Gathers S Q gather gather') (hdescend : cmp.Descends S E descend descend')
    (hl : cmp.lists O l m) :
    cmp.checks (cmp.parts E) (ctx.scopeEntries gather descend path scope l)
      (other.scopeEntries gather' descend' path scope m) := by
  unfold QueryContext.scopeEntries
  refine cmp.bind (cmp.each_group (h.placeGroups scope hl) ?_) fun found found' hfound =>
    cmp.pure (cmp.flatten hfound)
  rintro ⟨place, group⟩ ⟨_, group'⟩ ⟨rfl, hgroup⟩
  exact h.entriesAt hb hgather hdescend hgroup

/-- **The entries of sites are compared**, at any number of levels. -/
theorem entriesWithin (h : cmp.Expands S O ctx other) (hb : cmp.Builds Q E) :
    ∀ levels, cmp.Descends S E (ctx.entriesWithin levels) (other.entriesWithin levels) := by
  intro levels
  induction levels with
  | zero =>
    intro path scope sites others _
    exact cmp.pure cmp.nil
  | succ levels ih =>
    intro path scope sites others hs
    rw [QueryContext.entriesWithin, QueryContext.entriesWithin]
    refine cmp.bind (h.allOccurrences scope hs) ?_
    intro l m hl
    exact h.scopeEntries hb (h.selectionWithin hb levels) ih hl

/-- **The entries of sites are compared to their full depth**, however many levels that takes. -/
theorem entries (h : cmp.Expands S O ctx other) (hb : cmp.Builds Q E)
    (hc : NoNestedCycle ctx.fragments) (hc' : NoNestedCycle other.fragments) (scope : Name)
    {sites others : List Site} (hs : cmp.lists S sites others) :
    cmp.checks (cmp.parts E) (ctx.entries scope sites) (other.entries scope others) := by
  -- as many levels as either side needs
  rw [← entriesWithin_eq_entries hc (Nat.le_max_left _ (other.levels others)),
    ← entriesWithin_eq_entries hc' (Nat.le_max_right (ctx.levels sites) _)]
  exact h.entriesWithin hb _ [] scope sites others hs

end Comparison.Expands

/-- **Contexts that differ in their fragments expand alike** if sites with related selections have
compared occurrences. -/
theorem Comparison.expands_withFragments {cmp : Comparison}
    {R : List Query.Node → List Query.Node → Prop} {ctx : QueryContext}
    {fragments : Table Query.Fragment} (hR : KeepsBare R)
    (h : ∀ scope site other, site.Alike R other → cmp.checks (cmp.lists (Occurrence.Alike R))
      (ctx.occurrences scope site) ((ctx.withFragments fragments).occurrences scope other)) :
    cmp.Expands (Site.Alike R) (Occurrence.Alike R) ctx (ctx.withFragments fragments) where
  schema := rfl
  isBare _ _ hsite := hsite.isBare hR
  included _ _ hsite := hsite.included ▸ cmp.refl_flags _
  site _ _ ho := ho.site
  parent _ _ ho := ho.parent
  aliasName _ _ ho := ho.aliasName
  name _ _ ho := ho.name
  formFaults _ _ ho := ho.formFaults ctx
  occurrences := h

end StructQL
