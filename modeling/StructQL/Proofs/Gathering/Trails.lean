import StructQL.Proofs.Expansion.FragmentCycle
import StructQL.Proofs.Gathering.ObjectEntries

/-!
# The trails of entries

A walk may come to one field on several trails, which pass through different object types on the
way. Each trail has an entry of its own.

* `Trail`, `Spot`: the places that a walk passes, and what an entry shows of them: the response keys
  and the last place.
* `QueryContext.Trails`: the trails of a walk by a route.
* `exists_traced`: **the entries are those of the trails**, one of each.
* `MergedOperation.OneEntryEach`: no two entries have the same path, object type and field.
* `oneEntryEach_iff`: **an operation has one entry each just if no two trails of its walk lead to the
  same spot.**
-/

namespace StructQL

/-- **The places that a walk passes**, down to a struct field. -/
structure Trail where
  through : List Place
  last : Place

/-- The place at which a trail starts. -/
def Trail.first (t : Trail) : Place := t.through.headD t.last

/-- A trail that starts at a place before. -/
def Trail.after (place : Place) (t : Trail) : Trail := ⟨place :: t.through, t.last⟩

/-- **What an entry shows of its trail**: the response keys, and where the field is resolved. -/
structure Spot where
  path : List Name
  parent : Name
  fieldName : Name

/-- The spot of a trail that goes on from a path. -/
def Trail.spotFrom (path : List Name) (t : Trail) : Spot :=
  ⟨path ++ t.through.map Place.key ++ [t.last.key], t.last.parent, t.last.fieldName⟩

/-- **The spot to which a trail leads.** -/
def Trail.spot (t : Trail) : Spot := t.spotFrom []

/-- The spot of an entry. -/
def Entry.spot (e : Entry) : Spot := ⟨e.path, e.parent, e.fieldName⟩

theorem Trail.spotFrom_after (path : List Name) (place : Place) (t : Trail) :
    (t.after place).spotFrom path = t.spotFrom (path ++ [place.key]) := by
  simp [Trail.spotFrom, Trail.after]

theorem Trail.after_injective (place : Place) : Function.Injective (Trail.after place) := by
  rintro ⟨through, last⟩ ⟨through', last'⟩ h
  simpa [Trail.after] using h

namespace QueryContext

variable {ctx : QueryContext} {route : Route} {scope : Name} {S : Set (List Query.Node)}
  {path : List Name} {place : Place} {sites : List Site} {group : List Occurrence}

/-- **The trails of a walk by a route**, each through fields of objects to a struct field. -/
inductive Trails (ctx : QueryContext) (route : Route) :
    Name → Set (List Query.Node) → Trail → Prop where
  | here {scope : Name} {S : Set (List Query.Node)} {place : Place} {field : Field} :
    (ctx.routedTo route scope S place).Nonempty →
    ctx.schema.field? place.parent place.fieldName = some field →
    ctx.schema.isStructLike field.type.base = true → Trails ctx route scope S ⟨[], place⟩
  | deeper {scope : Name} {S : Set (List Query.Node)} {place : Place} {field : Field} {t : Trail} :
    (ctx.routedTo route scope S place).Nonempty →
    ctx.schema.field? place.parent place.fieldName = some field →
    ctx.isComposite field.type.base = true →
    Trails ctx route field.type.base (ctx.routedTo route scope S place) t →
    Trails ctx route scope S (t.after place)

theorem Trails.nonempty {t : Trail} (h : ctx.Trails route scope S t) :
    (ctx.routedTo route scope S t.first).Nonempty := by
  cases h with
  | here hne _ _ => exact hne
  | deeper hne _ _ _ => exact hne

/-- The trails from a place with a struct field end there. -/
theorem trails_struct_iff {field : Field} {t : Trail}
    (hf : ctx.schema.field? place.parent place.fieldName = some field)
    (hs : ctx.schema.isStructLike field.type.base = true) :
    ctx.Trails route scope S t ∧ t.first = place ↔
      (ctx.routedTo route scope S place).Nonempty ∧ t = ⟨[], place⟩ := by
  constructor
  · rintro ⟨ht, rfl⟩
    refine ⟨ht.nonempty, ?_⟩
    cases ht with
    | here _ _ _ => rfl
    | deeper _ hf' hc _ =>
      obtain rfl := Option.some.inj (hf.symm.trans hf')
      exact absurd hs (not_isStructLike_of_isComposite hc)
  · rintro ⟨hne, rfl⟩
    exact ⟨.here hne hf hs, rfl⟩

/-- The trails from a place with an object field go on from there. -/
theorem trails_composite_iff {field : Field} {t : Trail}
    (hf : ctx.schema.field? place.parent place.fieldName = some field)
    (hc : ctx.isComposite field.type.base = true) :
    ctx.Trails route scope S t ∧ t.first = place ↔
      (ctx.routedTo route scope S place).Nonempty ∧ ∃ rest, t = rest.after place ∧
        ctx.Trails route field.type.base (ctx.routedTo route scope S place) rest := by
  constructor
  · rintro ⟨ht, rfl⟩
    refine ⟨ht.nonempty, ?_⟩
    cases ht with
    | here _ hf' hs =>
      obtain rfl := Option.some.inj (hf.symm.trans hf')
      exact absurd hs (not_isStructLike_of_isComposite hc)
    | deeper _ hf' _ hrest =>
      obtain rfl := Option.some.inj (hf.symm.trans hf')
      exact ⟨_, rfl, hrest⟩
  · rintro ⟨hne, rest, rfl, hrest⟩
    exact ⟨.deeper hne hf hc hrest, rfl⟩

/-- No trail starts at a place with a leaf. -/
theorem not_trails_leaf {field : Field} {t : Trail}
    (hf : ctx.schema.field? place.parent place.fieldName = some field)
    (hs : ¬ ctx.schema.isStructLike field.type.base = true)
    (hc : ¬ ctx.isComposite field.type.base = true) :
    ¬ (ctx.Trails route scope S t ∧ t.first = place) := by
  rintro ⟨ht, rfl⟩
  cases ht with
  | here _ hf' hs' =>
    obtain rfl := Option.some.inj (hf.symm.trans hf')
    exact hs hs'
  | deeper _ hf' hc' _ =>
    obtain rfl := Option.some.inj (hf.symm.trans hf')
    exact hc hc'

/-! ## One entry of each trail -/

/-- **The entries are those of some trails**, one of each and in order. -/
structure Traced (path : List Name) (P : Trail → Prop) (entries : List Entry)
    (trails : List Trail) : Prop where
  nodup : trails.Nodup
  mem_iff : ∀ t, t ∈ trails ↔ P t
  spots : entries.map Entry.spot = trails.map (Trail.spotFrom path)

variable {P Q : Trail → Prop} {entries : List Entry} {trails : List Trail}

theorem Traced.congr (h : Traced path P entries trails) (hPQ : ∀ t, P t ↔ Q t) :
    Traced path Q entries trails :=
  ⟨h.nodup, fun t => (h.mem_iff t).trans (hPQ t), h.spots⟩

theorem traced_nil (h : ∀ t, ¬ P t) : Traced path P [] [] :=
  ⟨List.nodup_nil, fun t => iff_of_false List.not_mem_nil (h t), rfl⟩

/-- What is traced from a path is traced from a place before it. -/
theorem Traced.after (h : Traced (path ++ [place.key]) P entries trails) :
    Traced path (fun t => ∃ rest, t = rest.after place ∧ P rest) entries
      (trails.map (Trail.after place)) := by
  refine ⟨h.nodup.map (Trail.after_injective place), fun t => ?_, ?_⟩
  · rw [List.mem_map]
    constructor
    · rintro ⟨rest, hrest, rfl⟩
      exact ⟨rest, rfl, (h.mem_iff rest).1 hrest⟩
    · rintro ⟨rest, rfl, hrest⟩
      exact ⟨rest, (h.mem_iff rest).2 hrest, rfl⟩
  · rw [h.spots, List.map_map]
    refine List.map_congr_left fun t _ => ?_
    exact (Trail.spotFrom_after path place t).symm

/-- **Entries are traced part by part**, if the parts start at different places. -/
theorem exists_traced_flatMap {α : Type} {first : α → Place} {found : α → List Entry} {l : List α}
    (hnd : (l.map first).Nodup)
    (h : ∀ a ∈ l, ∃ trails, Traced path (fun t => P t ∧ t.first = first a) (found a) trails) :
    ∃ trails, Traced path (fun t => P t ∧ t.first ∈ l.map first) (l.flatMap found) trails := by
  induction l with
  | nil => exact ⟨[], traced_nil fun t ht => List.not_mem_nil ht.2⟩
  | cons a l ih =>
    rw [List.map_cons, List.nodup_cons] at hnd
    obtain ⟨trails, htrails⟩ := h a List.mem_cons_self
    obtain ⟨rest, hrest⟩ := ih hnd.2 fun b hb => h b (List.mem_cons_of_mem _ hb)
    refine ⟨trails ++ rest, ?_, fun t => ?_, ?_⟩
    · refine List.nodup_append'.2 ⟨htrails.nodup, hrest.nodup, fun t ht ht' => ?_⟩
      have hfirst := ((htrails.mem_iff t).1 ht).2
      exact hnd.1 (hfirst ▸ ((hrest.mem_iff t).1 ht').2)
    · rw [List.mem_append, htrails.mem_iff, hrest.mem_iff, List.map_cons, List.mem_cons,
        and_or_left]
    · rw [List.flatMap_cons, List.map_append, List.map_append, htrails.spots, hrest.spots]

/-- The entries of a struct field: there is one if something is routed to its place. -/
theorem exists_traced_struct {field : Field} {selection : Option Selection}
    (hf : ctx.schema.field? place.parent place.fieldName = some field)
    (hs : ctx.schema.isStructLike field.type.base = true)
    (hsome : selection.isSome = true ↔ (ctx.routedTo route scope S place).Nonempty) :
    ∃ trails, Traced path (fun t => ctx.Trails route scope S t ∧ t.first = place)
      (selection.map (Entry.mk (path ++ [place.key]) place.parent place.fieldName
        field.type)).toList trails := by
  cases selection with
  | none =>
    refine ⟨[], traced_nil fun t ht => ?_⟩
    have hne := ((trails_struct_iff hf hs).1 ht).1
    cases hsome.2 hne
  | some s =>
    refine ⟨[⟨[], place⟩], List.nodup_singleton _, fun t => ?_, ?_⟩
    · rw [List.mem_singleton, trails_struct_iff hf hs, and_iff_right (hsome.1 rfl)]
    · simp [Entry.spot, Trail.spotFrom]

theorem value_scopeEntries {gather : Name → List Site → Checked (Option Selection)}
    {descend : List Name → Name → List Site → Checked (List Entry)}
    {occurrences : List Occurrence} :
    (ctx.scopeEntries gather descend path scope occurrences).value =
      (ctx.placeGroups scope occurrences).flatMap fun p =>
        (ctx.entriesAt gather descend path p.1 p.2).value := by
  unfold scopeEntries placeGroups
  rw [Checked.value_bind, Checked.value_each, List.flatMap_def]
  rfl

/-- **The entries of a place are those of the trails that start there**, if the entries of the sites
below an object field are those of the trails below it. -/
theorem exists_traced_place {levels : Nat} (hc : NoNestedCycle ctx.fragments)
    (hw : (included sites).Nonempty → ctx.Within (levels + 1) (included sites))
    (hrouted : included (group.map Occurrence.site) =
      ctx.routedTo ctx.resolving scope (included sites) place)
    (h : (ctx.entriesAt (ctx.selectionWithin levels) (ctx.entriesWithin levels) path place
      group).faults = [])
    (hbelow : ∀ (path : List Name) (scope : Name) (sites : List Site),
      ((included sites).Nonempty → ctx.Within levels (included sites)) →
      (ctx.entriesWithin levels path scope sites).faults = [] →
      ∃ trails, Traced path (ctx.Trails ctx.resolving scope (included sites))
        (ctx.entriesWithin levels path scope sites).value trails) :
    ∃ trails, Traced path
      (fun t => ctx.Trails ctx.resolving scope (included sites) t ∧ t.first = place)
      (ctx.entriesAt (ctx.selectionWithin levels) (ctx.entriesWithin levels) path place
        group).value trails := by
  obtain ⟨field, hf⟩ := exists_field_of_entriesAt h
  by_cases hs : ctx.schema.isStructLike field.type.base = true
  · have hgathers := gathers_placeGroup hc hw hrouted hf hs h
    rw [entriesAt_of_struct hf hs]
    exact exists_traced_struct hf hs (hrouted ▸ hgathers.isSome_iff)
  · by_cases hcomp : ctx.isComposite field.type.base = true
    · rw [entriesAt_of_composite hf hcomp] at h ⊢
      obtain ⟨trails, htrails⟩ := hbelow _ _ _ (within_placeGroup hc hw hrouted hf) h
      refine ⟨_, htrails.after.congr fun t => ?_⟩
      rw [trails_composite_iff hf hcomp, hrouted]
      -- a trail below starts from something that is routed to the place
      refine ⟨?_, And.right⟩
      rintro ⟨rest, rfl, hrest⟩
      obtain ⟨_, -, nodes, hnodes, -⟩ := hrest.nonempty
      exact ⟨⟨nodes, hnodes⟩, rest, rfl, hrest⟩
    · rw [entriesAt_of_leaf hf hs hcomp]
      exact ⟨[], traced_nil fun t => not_trails_leaf hf hs hcomp⟩

/-- **The entries of sites are those of the trails**, one of each, where there are enough levels. -/
theorem exists_traced (hc : NoNestedCycle ctx.fragments) :
    ∀ (levels : Nat) (path : List Name) (scope : Name) (sites : List Site),
      ((included sites).Nonempty → ctx.Within levels (included sites)) →
      (ctx.entriesWithin levels path scope sites).faults = [] →
      ∃ trails, Traced path (ctx.Trails ctx.resolving scope (included sites))
        (ctx.entriesWithin levels path scope sites).value trails := by
  intro levels
  induction levels with
  | zero =>
    intro path scope sites hw _
    -- a trail starts from an included site
    refine ⟨[], traced_nil fun t ht => ?_⟩
    obtain ⟨_, -, nodes, hnodes, -⟩ := ht.nonempty
    exact absurd (hw ⟨nodes, hnodes⟩).pos (Nat.lt_irrefl 0)
  | succ levels ih =>
    intro path scope sites hw h
    obtain ⟨hocc, hscope⟩ := faults_entriesWithin h
    have hfields := isSome_field_of_faults hscope
    obtain ⟨trails, htrails⟩ := exists_traced_flatMap (Pairs.nodup_group _) fun p hgroup =>
      exists_traced_place hc hw (included_placeGroup hocc hfields hgroup)
        (faults_placeGroup hscope hgroup) ih
    rw [entriesWithin, Checked.value_bind, value_scopeEntries]
    refine ⟨trails, htrails.congr fun t => and_iff_left_of_imp fun ht => ?_⟩
    -- something is routed to the first place of a trail, so that it has a group
    obtain ⟨group, hgroup⟩ := exists_placeGroup_of_routedTo hocc hfields ht.nonempty
    exact List.mem_map.2 ⟨_, hgroup, rfl⟩

/-- Entries are at different spots just if the trails lead to different ones. -/
theorem Traced.nodup_spots_iff (h : Traced [] P entries trails) :
    (entries.map Entry.spot).Nodup ↔ ∀ t t', P t → P t' → t.spot = t'.spot → t = t' := by
  rw [h.spots, List.nodup_map_iff_inj_on h.nodup]
  constructor
  · intro hinj t t' ht ht'
    exact hinj t ((h.mem_iff t).2 ht) t' ((h.mem_iff t').2 ht')
  · intro hinj t ht t' ht'
    exact hinj t t' ((h.mem_iff t).1 ht) ((h.mem_iff t').1 ht')

end QueryContext

/-! ## Operations -/

/-- **Each object type has one entry for a field at a path.** -/
structure MergedOperation.OneEntryEach (operation : MergedOperation) : Prop where
  /-- No two entries have the same path, object type and field. -/
  spots : (operation.entries.map Entry.spot).Nodup
  /-- So there is one entry for each object type and field among those at a path. -/
  entriesAt : ∀ path, ((operation.entriesAt path).map fun e => (e.parent, e.fieldName)).Nodup
  /-- And there is an only one where a single object type and a single field resolve. -/
  entryAt? : ∀ path parent fieldName, operation.entriesAt path ≠ [] →
    (∀ e ∈ operation.entriesAt path, e.parent = parent ∧ e.fieldName = fieldName) →
    (operation.entryAt? path).isSome = true

/-- All of this follows from the first part. -/
theorem MergedOperation.oneEntryEach_iff_nodup {operation : MergedOperation} :
    operation.OneEntryEach ↔ (operation.entries.map Entry.spot).Nodup := by
  refine ⟨OneEntryEach.spots, fun hspots => ?_⟩
  have hat : ∀ path,
      ((operation.entriesAt path).map fun e => (e.parent, e.fieldName)).Nodup := by
    intro path
    refine (hspots.of_map.filter _).map_on ?_
    intro e he other hother hplace
    obtain ⟨hmem, hpath⟩ := List.mem_filter.1 he
    obtain ⟨hmem', hpath'⟩ := List.mem_filter.1 hother
    obtain ⟨hparent, hfield⟩ := Prod.mk.inj hplace
    have hsame : e.path = other.path := by
      refine List.map_injective_iff.2 (fun _ _ he => Name.ext_text he) ?_
      rw [of_decide_eq_true hpath, of_decide_eq_true hpath']
    refine List.inj_on_of_nodup_map hspots hmem hmem' ?_
    rw [Entry.spot, Entry.spot, hsame, hparent, hfield]
  refine ⟨hspots, hat, fun path parent fieldName hne hall => ?_⟩
  unfold entryAt?
  have hnodup := hat path
  match hentries : operation.entriesAt path with
  | [] => exact absurd hentries hne
  | [e] => rfl
  | e :: other :: rest =>
    -- two entries of one object type and one field
    rw [hentries] at hall hnodup
    have he := hall e List.mem_cons_self
    have hother := hall other (List.mem_cons_of_mem _ List.mem_cons_self)
    rw [List.map_cons, List.map_cons, he.1, he.2, hother.1, hother.2] at hnodup
    exact absurd List.mem_cons_self (List.nodup_cons.1 hnodup).1

namespace Merger

open QueryContext Checked

variable {m : Merger} {operation : Query.Operation} {results : List MergedOperation}

/-- **No two trails of an operation lead to the same spot.** -/
def OneTrailEach (m : Merger) (operation : Query.Operation) : Prop :=
  ∀ root, m.schema.schema.roots.root? operation.type = some root → ∀ t t',
    (m.context operation.booleanDefaults).Trails (m.context operation.booleanDefaults).resolving
      root {operation.selections} t →
    (m.context operation.booleanDefaults).Trails (m.context operation.booleanDefaults).resolving
      root {operation.selections} t' → t.spot = t'.spot → t = t'

theorem oneEntryEach_of_mergeOperation (hc : NoNestedCycle m.document.fragmentTable)
    (h : (m.mergeOperation operation).faults = []) :
    ∃ result, (m.mergeOperation operation).value = some result ∧
      (result.OneEntryEach ↔ m.OneTrailEach operation) := by
  unfold mergeOperation at h ⊢
  cases hroot : m.schema.schema.roots.root? operation.type with
  | none =>
    rw [hroot] at h
    cases h
  | some root =>
    rw [hroot] at h
    refine ⟨_, rfl, ?_⟩
    obtain ⟨trails, htrails⟩ := exists_traced hc _ [] root _ (fun _ => within_levels _)
      (faults_bind_eq_nil.1 h).1
    rw [included_singleton] at htrails
    rw [MergedOperation.oneEntryEach_iff_nodup]
    refine htrails.nodup_spots_iff.trans ⟨fun hone other hother => ?_, fun hone => hone root hroot⟩
    obtain rfl := Option.some.inj (hroot.symm.trans hother)
    exact hone

/-- **An operation has one entry each just if no two trails lead to the same spot.** -/
theorem oneEntryEach_iff (m : Merger) (results : List MergedOperation)
    (h : m.mergeOperations = .ok results) :
    List.Forall₂ (fun operation result => result.OneEntryEach ↔ m.OneTrailEach operation)
      m.document.operations results := by
  obtain ⟨hfaults, -⟩ := result_eq_ok h
  -- a fragment that leads back to itself would have been reported
  have hc := fragmentCycleFaults_eq_nil_iff.1 (faults_bind_eq_nil.1 hfaults).1
  exact forall₂_of_mergeOperations
    (fun _ hnone => oneEntryEach_of_mergeOperation hc.noNestedCycle hnone) h

/-- The query `{ n { a { s { z } } } }`. -/
def belowInterface : Query.Operation where
  type := .query
  name := none
  variableDefinitions := []
  directives := []
  selections := [.field none ⟨"n", .refl true⟩ [] [] [.field none ⟨"a", .refl true⟩ [] []
    [.field none ⟨"s", .refl true⟩ [] [] [.field none ⟨"z", .refl true⟩ [] [] []]]]]

/-- The interface `N` of `X` and `Y`, which both lead to `A` by a field `a`. -/
def sharedTarget : Merger where
  schema := {
    schema := {
      types := ⟨[.scalar Name.string,
        .object ⟨RootTypes.standard.query, [],
          .ofFirsts [⟨⟨"n", .refl true⟩, .named ⟨"N", .refl true⟩ false, []⟩]⟩,
        .interface ⟨⟨"N", .refl true⟩, [],
          .ofFirsts [⟨⟨"a", .refl true⟩, .named ⟨"A", .refl true⟩ false, []⟩]⟩,
        .object ⟨⟨"X", .refl true⟩, [⟨"N", .refl true⟩],
          .ofFirsts [⟨⟨"a", .refl true⟩, .named ⟨"A", .refl true⟩ false, []⟩]⟩,
        .object ⟨⟨"Y", .refl true⟩, [⟨"N", .refl true⟩],
          .ofFirsts [⟨⟨"a", .refl true⟩, .named ⟨"A", .refl true⟩ false, []⟩]⟩,
        .object ⟨⟨"A", .refl true⟩, [],
          .ofFirsts [⟨⟨"s", .refl true⟩, .named ⟨"S", .refl true⟩ false, []⟩]⟩,
        .struct ⟨⟨"S", .refl true⟩,
          .ofFirsts [⟨⟨"z", .refl true⟩, .named Name.string false, []⟩]⟩], by decide⟩
      directives := .empty
      roots := .standard }
    shapeFaults_eq_nil := by decide +kernel }
  document := ⟨[belowInterface], []⟩

/-- The entry for the field `s` of `A`. -/
def entryOfA : Entry where
  path := [⟨"n", .refl true⟩, ⟨"a", .refl true⟩, ⟨"s", .refl true⟩]
  parent := ⟨"A", .refl true⟩
  fieldName := ⟨"s", .refl true⟩
  fieldType := .named ⟨"S", .refl true⟩ false
  selection := .struct ⟨⟨"S", .refl true⟩, [(⟨"z", .refl true⟩, .whole)]⟩

theorem mergeOperations_belowInterface :
    sharedTarget.mergeOperations = .ok [⟨.query, none, [entryOfA, entryOfA]⟩] := by
  cbv

/-- The entry is found by way of `X` and by way of `Y`. -/
theorem not_oneEntryEach_belowInterface :
    ¬ MergedOperation.OneEntryEach ⟨.query, none, [entryOfA, entryOfA]⟩ := by
  intro h
  exact (List.nodup_cons.1 h.spots).1 List.mem_cons_self

/-- Two trails lead to `A`. -/
theorem not_oneTrailEach_belowInterface : ¬ sharedTarget.OneTrailEach belowInterface := by
  intro hone
  have hiff := oneEntryEach_iff sharedTarget _ mergeOperations_belowInterface
  exact not_oneEntryEach_belowInterface ((List.forall₂_cons.1 hiff).1.2 hone)

/-- **An operation may have two entries for one field of one object type at one path.** -/
theorem mergeOperations_not_oneEntryEach :
    ∃ results, sharedTarget.mergeOperations = .ok results ∧
      ¬ ∀ result ∈ results, result.OneEntryEach :=
  ⟨_, mergeOperations_belowInterface, fun h =>
    not_oneEntryEach_belowInterface (h _ List.mem_cons_self)⟩

end Merger

end StructQL
