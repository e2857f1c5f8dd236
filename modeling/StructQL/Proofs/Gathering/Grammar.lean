import StructQL.Proofs.Gathering.Join

/-!
# The grammar of selections on structs

What is selected on structs is written by a restricted grammar. It is asked of every selection that
is reached from some selections, through fragments and below fields, and answered by gathering,
which meets only those that concern some struct.

* `Obeys`: a selection is written by the grammar, on the type that it is selected on.
* `Reached`: it is reached from selections of a scope.
* `Met`: it is checked where it stands.
* `obeys_of_met`: what is met on the way that gathering takes obeys the grammar, if nothing is wrong.
* `mergeScope_obeys_iff`: **all that is reached obeys just if what gathering overlooks does.**
-/

namespace StructQL

/-- **A struct has the field, or all members of a struct union have it**, with one type. -/
structure Declares (schema : Schema) (parent name : Name) (type : TypeRef) : Prop where
  isStructLike : schema.isStructLike parent = true
  nonempty : schema.possibleTypes parent ≠ []
  declared : ∀ struct ∈ schema.possibleTypes parent,
    ∃ field, schema.field? struct name = some field ∧ field.type = type

variable {schema : Schema}

/-- The type of a declared field is the same for each struct that is possible for the parent. -/
theorem Declares.type_eq {parent name struct : Name} {type : TypeRef}
    (h : Declares schema parent name type) (hmem : struct ∈ schema.possibleTypes parent)
    {field : Field} (hfield : schema.field? struct name = some field) : field.type = type := by
  obtain ⟨other, hother, rfl⟩ := h.declared struct hmem
  rw [hother] at hfield
  cases hfield
  rfl

theorem field?_of_struct? {type name : Name} {struct : StructType}
    {field : Field} (h : schema.struct? type = some struct)
    (hfield : struct.fields.find? name = some field) : schema.field? type name = some field := by
  unfold Schema.field?
  rw [Schema.struct?_eq_some_iff.1 h]
  exact hfield

/-- A common field is declared with one type by each of the structs. -/
theorem declared_of_isCommonField {structs : List Name} {name : Name}
    (h : schema.isCommonField structs name = true) :
    structs ≠ [] ∧ ∃ type, ∀ struct ∈ structs,
      ∃ field, schema.field? struct name = some field ∧ field.type = type := by
  cases structs with
  | nil => cases h
  | cons first rest =>
    refine ⟨List.cons_ne_nil _ _, ?_⟩
    unfold Schema.isCommonField at h
    rw [List.map_cons] at h
    dsimp only at h
    split at h
    · rename_i type types heq
      obtain ⟨hfirst, rfl⟩ := List.cons.inj heq
      -- what the fields of the structs have as their type
      have htypes : ∀ struct ∈ first :: rest,
          ((schema.struct? struct).bind fun type => type.fields.find? name).map Field.type =
            some type := by
        intro struct hmem
        rcases List.mem_cons.1 hmem with rfl | hmem
        · exact hfirst
        · exact of_decide_eq_true (List.all_eq_true.1 h _ (List.mem_map_of_mem hmem))
      refine ⟨type, fun struct hmem => ?_⟩
      obtain ⟨field, hfield, htype⟩ := Option.map_eq_some_iff.1 (htypes struct hmem)
      obtain ⟨definition, hdefinition, hfield⟩ := Option.bind_eq_some_iff.1 hfield
      exact ⟨field, field?_of_struct? hdefinition hfield, htype⟩
    · cases h

theorem declares_of_struct {parent name : Name} {struct : StructType} {field : Field}
    (h : schema.struct? parent = some struct) (hfield : struct.fields.find? name = some field) :
    Declares schema parent name field.type := by
  have htype := Schema.struct?_eq_some_iff.1 h
  have hpossible : schema.possibleTypes parent = [parent] := by
    unfold Schema.possibleTypes
    rw [htype]
  refine ⟨Schema.isStructLike_eq_true_iff.2 ⟨_, htype, rfl⟩, ?_, ?_⟩
  · rw [hpossible]
    exact List.cons_ne_nil _ _
  · rw [hpossible]
    exact fun struct hmem => List.mem_singleton.1 hmem ▸ ⟨field, field?_of_struct? h hfield, rfl⟩

theorem declares_of_isCommonField {parent name : Name} {union : UnionType}
    (h : schema.type? parent = some (.structUnion union))
    (hcommon : schema.isCommonField union.members name = true) :
    ∃ type, Declares schema parent name type := by
  obtain ⟨hne, type, hdeclared⟩ := declared_of_isCommonField hcommon
  have hpossible : schema.possibleTypes parent = distinctNames union.members := by
    unfold Schema.possibleTypes
    rw [h]
  refine ⟨type, Schema.isStructLike_eq_true_iff.2 ⟨_, h, rfl⟩, ?_, ?_⟩
  · obtain ⟨member, hmember⟩ := List.exists_mem_of_ne_nil _ hne
    rw [hpossible]
    exact List.ne_nil_of_mem (mem_distinctNames.2 hmember)
  · rw [hpossible]
    exact fun struct hmem => hdeclared struct (mem_distinctNames.1 hmem)

/-- Some struct is possible for both types. -/
def Overlap (schema : Schema) (scope parent : Name) : Prop :=
  ∃ struct ∈ schema.possibleTypes scope, struct ∈ schema.possibleTypes parent

/-- **A selection where it stands**: in a scope, under the conditions of fragments, in those that are
spread. -/
structure Standing where
  scope : Name
  conditions : List Name
  names : List Name
  node : Query.Node

/-- The type that the selection is on. -/
def Standing.parent (p : Standing) : Name := innermost p.conditions p.scope

namespace QueryContext

variable (ctx : QueryContext)

/-- **A selection is written by the grammar.** A field has no alias, no arguments and no directive
that is not allowed, it exists, and nothing is selected of leaves. A fragment exists and can apply. -/
def Obeys (p : Standing) : Prop :=
  match p.node with
  | .field aliasName name arguments directives selections =>
    aliasName = none ∧ arguments = [] ∧ (∀ d ∈ directives, ctx.allowsDirective d.name = true) ∧
      if name = Name.typename then selections = []
      else ∃ type, Declares ctx.schema p.parent name type ∧
        (ctx.schema.isStructLike type.base = true ∨ selections = [])
  | .inline condition _ _ => ctx.schema.canApply p.parent (condition.getD p.parent) = true
  | .spread name _ => ∃ fragment, ctx.fragments.find? name = some fragment ∧
      ctx.schema.canApply p.parent fragment.condition = true

/-- **A selection is reached from selections of a scope**, on their own level and in fragments, and
below the fields of structs that are entered from the scope on their type. -/
inductive Reached (enters : Name → Name → Prop) : Name → List Query.Node → Standing → Prop where
  | here {scope : Name} {nodes : List Query.Node} {conditions names : List Name}
    {node : Query.Node} :
    Stands ctx.fragments anyDirectives nodes conditions names node →
    Reached enters scope nodes ⟨scope, conditions, names, node⟩
  | nested {scope name : Name} {nodes selections : List Query.Node} {conditions names : List Name}
    {aliasName : Option Name} {arguments : List Query.Argument}
    {directives : List Query.Directive} {type : TypeRef} {p : Standing} :
    Stands ctx.fragments anyDirectives nodes conditions names
      (.field aliasName name arguments directives selections) →
    enters scope (innermost conditions scope) → name ≠ Name.typename →
    Declares ctx.schema (innermost conditions scope) name type →
    ctx.schema.isStructLike type.base = true →
    Reached enters type.base selections p → Reached enters scope nodes p

/-- The fields of structs are entered everywhere. -/
def anywhere (_ _ : Name) : Prop := True

/-- **A selection is checked where it stands**: a field if some struct of the scope meets its
innermost condition, and a fragment unless it is spread inside itself. -/
def IsChecked (p : Standing) : Prop :=
  match p.node with
  | .field .. => Overlap ctx.schema p.scope p.parent
  | .inline .. => True
  | .spread name _ => name ∉ p.names

/-- **Gathering meets a selection**: it is reached below fields that are checked, and is checked. -/
def Met (scope : Name) (nodes : List Query.Node) (p : Standing) : Prop :=
  ctx.Reached (Overlap ctx.schema) scope nodes p ∧ ctx.IsChecked p

variable {ctx} {scope : Name} {site : Site} {nodes : List Query.Node} {o : Occurrence}

theorem eq_of_formFaults (h : ctx.formFaults o = []) :
    o.aliasName = none ∧ o.arguments = [] ∧
      ∀ d ∈ o.directives, ctx.allowsDirective d.name = true := by
  unfold formFaults at h
  dsimp only at h
  rw [List.append_eq_nil_iff, List.append_eq_nil_iff] at h
  obtain ⟨⟨halias, harguments⟩, hdirectives⟩ := h
  refine ⟨?_, ?_, fun d hd => ?_⟩
  · cases ha : o.aliasName with
    | none => rfl
    | some aliasName => simp [ha] at halias
  · cases ha : o.arguments with
    | nil => rfl
    | cons argument rest => simp [ha] at harguments
  · rw [List.map_eq_nil_iff, List.filter_eq_nil_iff] at hdirectives
    simpa using hdirectives d hd

/-- **A field that is not missing is declared** with one type. -/
theorem declares_of_missingFault? (h : ctx.missingFault? o = none) :
    ∃ type, Declares ctx.schema o.parent o.name type := by
  unfold missingFault? at h
  split at h
  · rename_i struct hstruct
    split at h
    · rename_i hcontains
      obtain ⟨field, hfield⟩ := Table.exists_find?_of_contains hcontains
      exact ⟨field.type, declares_of_struct (Schema.struct?_eq_some_iff.2 hstruct) hfield⟩
    · cases h
  · rename_i union hunion
    split at h
    · rename_i hcommon
      exact declares_of_isCommonField hunion hcommon
    · cases h
  · cases h

variable {levels : Nat} {conditions names : List Name} {aliasName : Option Name} {name struct : Name}
  {arguments : List Query.Argument} {directives : List Query.Directive}
  {selections : List Query.Node}

/-- **A field that is met is one of the occurrences**, without faults as one of a struct. -/
theorem exists_occurrence_of_met (hs : ctx.schema.isStructLike scope = true)
    (hstands : Stands ctx.fragments anyDirectives site.selections conditions names
      (.field aliasName name arguments directives selections))
    (hoverlap : Overlap ctx.schema scope (innermost conditions scope))
    (hfaults : (ctx.selectionWithin (levels + 1) scope [site]).faults = []) :
    ∃ o struct, o.node = .field aliasName name arguments directives selections ∧
      o.parent = innermost conditions scope ∧ struct ∈ ctx.schema.possibleTypes o.parent ∧
      ctx.occurrenceFaults (ctx.selectionWithin levels) struct o = [] := by
  have hnone := List.eq_nil_iff_forall_not_mem.1 hfaults
  simp only [mem_faults_selectionWithin hs, List.mem_singleton, exists_eq_left, not_or] at hnone
  have hexpand : (ctx.occurrences scope site).faults = [] :=
    List.eq_nil_iff_forall_not_mem.2 fun f => (hnone f).1
  obtain ⟨o, ho, hnode, hparent, -⟩ := exists_occurrence_of_stands hstands hexpand
  obtain ⟨struct, hscope, hcovered⟩ := hoverlap
  rw [← hparent] at hcovered
  refine ⟨o, struct, hnode, hparent, hcovered, List.eq_nil_iff_forall_not_mem.2 fun f hf => ?_⟩
  exact (hnone f).2 ⟨o, ho, struct, ⟨hscope, fun _ => hcovered⟩, hf⟩

theorem selections_eq_nil_of_leafFaults {type : Name} (h : leafFaults type [o] = []) :
    o.site.selections = [] := by
  have hnone := List.eq_nil_iff_forall_not_mem.1 h
  cases hbare : o.site.isBare with
  | true => exact List.isEmpty_iff.1 hbare
  | false =>
    exact absurd (mem_leafFaults.2 ⟨o, List.mem_singleton_self _, hbare, rfl⟩) (hnone _)

variable {gather : Name → List Site → Checked (Option Selection)}

/-- An occurrence without faults is of a field that each struct has with the same type. -/
theorem declares_of_selectedFaults (h : ctx.selectedFaults gather struct o = [])
    (hname : o.name ≠ Name.typename) (hmem : struct ∈ ctx.schema.possibleTypes o.parent) :
    ∃ field, Declares ctx.schema o.parent o.name field.type ∧
      ctx.foundFaults gather field o = [] := by
  unfold selectedFaults at h
  rw [if_neg hname] at h
  cases hmissing : ctx.missingFault? o with
  | some fault => simp [hmissing] at h
  | none =>
    obtain ⟨type, hdeclares⟩ := declares_of_missingFault? hmissing
    obtain ⟨field, hfield, rfl⟩ := hdeclares.declared struct hmem
    rw [hmissing, hfield] at h
    exact ⟨field, hdeclares, h⟩

/-- **An occurrence without faults is written by the grammar.** -/
theorem obeys_of_occurrenceFaults (h : ctx.occurrenceFaults gather struct o = [])
    (hmem : struct ∈ ctx.schema.possibleTypes o.parent) {p : Standing} (hnode : p.node = o.node)
    (hparent : p.parent = o.parent) : ctx.Obeys p := by
  obtain ⟨hform, hselected⟩ := List.append_eq_nil_iff.1 h
  obtain ⟨halias, harguments, hdirectives⟩ := eq_of_formFaults hform
  unfold Obeys
  rw [hnode, hparent]
  refine ⟨halias, harguments, hdirectives, ?_⟩
  by_cases hname : o.name = Name.typename
  · rw [if_pos hname]
    rw [selectedFaults, if_pos hname] at hselected
    exact selections_eq_nil_of_leafFaults hselected
  · rw [if_neg hname]
    obtain ⟨field, hdeclares, hfound⟩ := declares_of_selectedFaults hselected hname hmem
    refine ⟨field.type, hdeclares, ?_⟩
    unfold foundFaults at hfound
    split at hfound
    · exact .inl ‹_›
    · exact .inr (selections_eq_nil_of_leafFaults hfound)

/-- What an occurrence selects of a struct field is without faults, if the occurrence is. -/
theorem faults_of_declares (h : ctx.occurrenceFaults gather struct o = [])
    (hname : o.name ≠ Name.typename) (hmem : struct ∈ ctx.schema.possibleTypes o.parent)
    {type : TypeRef} (hdeclares : Declares ctx.schema o.parent o.name type)
    (hlike : ctx.schema.isStructLike type.base = true) : (gather type.base [o.site]).faults = [] := by
  obtain ⟨-, hselected⟩ := List.append_eq_nil_iff.1 h
  obtain ⟨field, hdeclares', hfound⟩ := declares_of_selectedFaults hselected hname hmem
  obtain ⟨other, hother, rfl⟩ := hdeclares.declared struct hmem
  rw [hdeclares'.type_eq hmem hother] at hlike ⊢
  rwa [foundFaults, if_pos hlike] at hfound

/-- A fragment that stands in selections without faults exists and can apply, unless it is spread
inside itself. -/
theorem obeys_of_fragment {node : Query.Node}
    (hstands : Stands ctx.fragments anyDirectives site.selections conditions names node)
    (hfaults : (ctx.occurrences scope site).faults = [])
    (hfield : ∀ aliasName name arguments directives selections,
      node ≠ .field aliasName name arguments directives selections)
    (hchecked : ctx.IsChecked ⟨scope, conditions, names, node⟩) :
    ctx.Obeys ⟨scope, conditions, names, node⟩ := by
  obtain ⟨inner, unopened, -, hopen, hnone, -⟩ := exists_expand_of_site hstands hfaults
  cases node with
  | field => exact absurd rfl (hfield _ _ _ _ _)
  | inline condition directives selections =>
    rw [expand_inline] at hnone
    split at hnone
    · assumption
    · cases hnone
  | spread name directives =>
    cases hfind : ctx.fragments.find? name with
    | none =>
      rw [expand_spread_none hfind] at hnone
      cases hnone
    | some fragment =>
      rw [expand_spread hfind, if_pos (hopen name (Table.contains_of_find? hfind) hchecked)] at hnone
      split at hnone
      · exact ⟨fragment, hfind, ‹_›⟩
      · cases hnone

/-- **What gathering meets obeys the grammar**, if nothing is wrong and the levels are enough. -/
theorem obeys_of_met (hc : NoNestedCycle ctx.fragments) {p : Standing}
    (h : ctx.Reached (Overlap ctx.schema) scope nodes p) (hchecked : ctx.IsChecked p) :
    ∀ levels site, site.selections = nodes → weight ctx.fragments nodes < levels →
      ctx.schema.isStructLike scope = true →
      (ctx.selectionWithin levels scope [site]).faults = [] → ctx.Obeys p := by
  induction h with
  | @here scope nodes conditions names node hstands =>
    rintro levels site rfl hweight hs hfaults
    obtain ⟨levels, rfl⟩ : ∃ n, levels = n + 1 := ⟨levels - 1, by omega⟩
    by_cases hfield : ∃ aliasName name arguments directives selections,
        node = .field aliasName name arguments directives selections
    · obtain ⟨_, _, _, _, _, rfl⟩ := hfield
      obtain ⟨o, struct, hnode, hparent, hmem, hnone⟩ :=
        exists_occurrence_of_met hs hstands hchecked hfaults
      exact obeys_of_occurrenceFaults hnone hmem hnode.symm hparent.symm
    · have hexpand := faults_allOccurrences_eq_nil (faults_selectionWithin hfaults).1 site
        (List.mem_singleton_self _)
      exact obeys_of_fragment hstands hexpand
        (fun a n args ds s he => hfield ⟨a, n, args, ds, s, he⟩) hchecked
  | @nested scope name nodes selections conditions names _ _ _ type p hstands hoverlap hname
      hdeclares hlike _ ih =>
    rintro levels site rfl hweight hs hfaults
    obtain ⟨levels, rfl⟩ : ∃ n, levels = n + 1 := ⟨levels - 1, by omega⟩
    obtain ⟨o, struct, hnode, hparent, hmem, hnone⟩ :=
      exists_occurrence_of_met hs hstands hoverlap hfaults
    obtain ⟨parent, aliasName, name, arguments, directives, selected⟩ := o
    cases hnode
    dsimp only at hparent
    subst hparent
    have hlighter := weight_lt_of_stands hc hstands
    exact ih hchecked levels selected rfl (by omega) hlike
      (faults_of_declares hnone hname hmem hdeclares hlike)

end QueryContext

namespace Merger

open QueryContext

/-- **All that is reached from merged selections obeys the grammar just if what gathering does not
meet does.** -/
theorem mergeScope_obeys_iff (m : Merger) (hc : NoNestedCycle m.document.fragmentTable)
    (scope : Name) (selections : List (List Query.Node)) (s : Selection)
    (h : m.mergeScope scope selections = .ok s) :
    (∀ nodes ∈ selections, ∀ p, (m.context []).Reached anywhere scope nodes p →
        (m.context []).Obeys p) ↔
      ∀ nodes ∈ selections, ∀ p, (m.context []).Reached anywhere scope nodes p →
        ¬ (m.context []).Met scope nodes p → (m.context []).Obeys p := by
  refine ⟨fun hall nodes hnodes p hp _ => hall nodes hnodes p hp, fun hrest nodes hnodes p hp => ?_⟩
  by_cases hmet : (m.context []).Met scope nodes p
  · obtain ⟨hs, hfaults, -⟩ := mergeScope_eq_ok_iff.1 h
    have hsite : Site.mk nodes true ∈ selections.map (Site.mk · true) := List.mem_map_of_mem hnodes
    refine obeys_of_met hc hmet.1 hmet.2 _ ⟨nodes, true⟩ rfl
      (weight_lt_levels (size_pos_of_isStructLike hs) hsite) hs ?_
    -- the site has none of the faults that all sites together do not have
    refine List.eq_nil_iff_forall_not_mem.2 fun f hf => ?_
    have hmem : f ∈ (m.gathered scope selections).faults :=
      (siteBySite_selectionWithin _ scope hs _ f).2 ⟨_, hsite, hf⟩
    rw [hfaults] at hmem
    cases hmem
  · exact hrest nodes hnodes p hp hmet

/-- The structs `A`, `B` and `C`, with the struct unions `U` of the first two and `V` of the last
two. -/
def chainedUnions : Merger where
  schema := {
    schema := {
      types := ⟨[.scalar Name.string,
        .struct ⟨⟨"A", .refl true⟩, ⟨[⟨⟨"x", .refl true⟩, .named Name.string false, []⟩],
          by decide⟩⟩,
        .struct ⟨⟨"B", .refl true⟩, ⟨[⟨⟨"x", .refl true⟩, .named Name.string false, []⟩],
          by decide⟩⟩,
        .struct ⟨⟨"C", .refl true⟩, ⟨[⟨⟨"x", .refl true⟩, .named Name.string false, []⟩],
          by decide⟩⟩,
        .structUnion ⟨⟨"U", .refl true⟩, [⟨"A", .refl true⟩, ⟨"B", .refl true⟩]⟩,
        .structUnion ⟨⟨"V", .refl true⟩, [⟨"B", .refl true⟩, ⟨"C", .refl true⟩]⟩], by decide⟩
      directives := .empty
      roots := .standard }
    shapeFaults_eq_nil := by decide +kernel }
  document := ⟨[], []⟩

/-- The field `x` with an alias. -/
def aliasedX : Query.Node := .field (some ⟨"y", .refl true⟩) ⟨"x", .refl true⟩ [] [] []

/-- The selection `... on V { ... on C { y: x } }`. -/
def throughV : List Query.Node :=
  [.inline (some ⟨"V", .refl true⟩) [] [.inline (some ⟨"C", .refl true⟩) [] [aliasedX]]]

/-- The field with an alias stands on `C`. -/
def aliasOnC : Standing := ⟨⟨"U", .refl true⟩, [⟨"V", .refl true⟩, ⟨"C", .refl true⟩], [], aliasedX⟩

theorem noNestedCycle_chainedUnions : NoNestedCycle chainedUnions.document.fragmentTable := by
  rintro name other ⟨fragment, hfind, -⟩
  cases hfind

theorem mergeScope_throughV :
    chainedUnions.mergeScope ⟨"U", by decide⟩ [throughV] = .ok (membersOfU [] []) := by
  cbv

theorem reached_aliasOnC :
    (chainedUnions.context []).Reached anywhere ⟨"U", by decide⟩ throughV aliasOnC :=
  .here (.inline (List.mem_singleton_self _) trivial
    (.inline (List.mem_singleton_self _) trivial (.here (List.mem_singleton_self _))))

theorem not_obeys_aliasOnC : ¬ (chainedUnions.context []).Obeys aliasOnC := by
  rintro ⟨halias, -⟩
  cases halias

/-- Gathering does not meet the alias, as no struct of the scope is a `C`. -/
theorem not_obeys_overlooked :
    ¬ ∀ nodes ∈ [throughV], ∀ p,
      (chainedUnions.context []).Reached anywhere ⟨"U", by decide⟩ nodes p →
      ¬ (chainedUnions.context []).Met ⟨"U", by decide⟩ nodes p →
      (chainedUnions.context []).Obeys p := fun hrest =>
  not_obeys_aliasOnC ((mergeScope_obeys_iff chainedUnions noNestedCycle_chainedUnions
    ⟨"U", by decide⟩ [throughV] _ mergeScope_throughV).2 hrest throughV (List.mem_singleton_self _)
    aliasOnC reached_aliasOnC)

/-- **Merging may succeed with an alias in it**, in a fragment that no struct of the scope meets. -/
theorem mergeScope_not_obeys :
    NoNestedCycle chainedUnions.document.fragmentTable ∧
      chainedUnions.mergeScope ⟨"U", by decide⟩ [throughV] = .ok (membersOfU [] []) ∧
      ¬ ∀ nodes ∈ [throughV], ∀ p,
        (chainedUnions.context []).Reached anywhere ⟨"U", by decide⟩ nodes p →
        (chainedUnions.context []).Obeys p :=
  ⟨noNestedCycle_chainedUnions, mergeScope_throughV, fun hall => not_obeys_aliasOnC
    (hall throughV (List.mem_singleton_self _) aliasOnC reached_aliasOnC)⟩

end Merger

end StructQL
