import StructQL.Proofs.Fault.Report
import StructQL.Proofs.SDL.Flaws

/-!
# Definitions with repetitions

Every definition is looked at, also one that stands for nothing as its name was taken. What is wrong
is reported once, where it is first found, and without a fault everything that is defined is there.

* `Tracked`: the state after some definitions, however many of them are repetitions.
* `Firsts`: flaws in the order in which they are first found, and `exists_firsts`: a report has them
  in this order.
* `Includes`: all that is defined is in a schema.
* `assemble_reports_repetitions`: **every flaw is reported once, in order, and without flaws all
  that is defined is in the schema.**
-/

namespace StructQL.SDL

open List

section

variable {defs done : List Definition} {d : Definition} {a : Assembly} {spot : Spot} {flaw : Flaw}

/-! ## The state after some definitions -/

/-- **The state after some definitions**, however many of them are repetitions. -/
structure Tracked (defs : List Definition) (a : Assembly) : Prop where
  defined : ∀ name, name ∈ a.defined ↔ name ∈ defs.filterMap Definition.typeName?
  directives : ∀ name, a.schema.directives.contains name = true ↔
    name ∈ (defs.filterMap Definition.directive?).map DirectiveDefinition.name
  faults : a.faults = (walk firstPass defs).map fun x => x.2.fault
  fieldFaults : a.fieldFaults = (walk secondPass defs).map fun x => x.2.fault

theorem faults_foldl_setRoot (place : Nat) (operations : List (Name × Name)) :
    (operations.foldl Assembly.setRoot ⟨.standard, []⟩).faults =
      (unknownOperations place operations).map fun x => x.2.fault := by
  induction operations using List.reverseRecOn with
  | nil => rfl
  | append_singleton before operation ih =>
    obtain ⟨kind, type⟩ := operation
    rw [List.foldl_concat, unknownOperations, walk_concat, List.map_append, ← unknownOperations, ← ih]
    by_cases hquery : kind.text = "query"
    · simp [Assembly.setRoot, hquery]
    · by_cases hmutation : kind.text = "mutation"
      · simp [Assembly.setRoot, hmutation]
      · by_cases hsubscription : kind.text = "subscription"
        · simp [Assembly.setRoot, hsubscription]
        · simp [Assembly.setRoot, hquery, hmutation, hsubscription, Flaw.fault]

theorem repeated_eq_walk (names : List Name) :
    repeated names = walk (fun before name => if name ∈ before then [name] else []) names := by
  suffices hgo : ∀ seen before, (∀ n, n ∈ seen ↔ n ∈ before) → repeated.go seen names =
      walk.go (fun before name => if name ∈ before then [name] else []) before names from
    hgo [] [] fun _ => Iff.rfl
  induction names with
  | nil => exact fun _ _ _ => rfl
  | cons name rest ih =>
    intro seen before hsame
    rw [repeated.go, walk.go]
    by_cases hseen : name ∈ seen
    · have hstill : ∀ n, n ∈ seen ↔ n ∈ before ++ [name] := by
        intro n
        rw [List.mem_append, List.mem_singleton, hsame]
        constructor
        · exact .inl
        · rintro (h | rfl)
          · exact h
          · exact (hsame n).1 hseen
      rw [if_pos hseen, if_pos ((hsame name).1 hseen), ih seen _ hstill]
      rfl
    · have hmore : ∀ n, n ∈ name :: seen ↔ n ∈ before ++ [name] := by
        intro n
        rw [List.mem_append, List.mem_singleton, List.mem_cons, hsame, or_comm]
      rw [if_neg hseen, if_neg (fun h => hseen ((hsame name).2 h)), ih _ _ hmore]
      rfl

theorem map_fault_fieldsAgain (place : Nat) (name : Name) (fields : List Field) :
    (fieldsAgain place name fields).map (fun x => x.2.fault) =
      (repeated (fields.map Field.name)).map (Fault.duplicateFieldDefinition name) := by
  induction fields using List.reverseRecOn with
  | nil => rfl
  | append_singleton before field ih =>
    rw [List.map_append, List.map_singleton, repeated_eq_walk, walk_concat, ← repeated_eq_walk,
      List.map_append, ← ih, fieldsAgain, walk_concat, List.map_append]
    refine congrArg _ ?_
    split <;> rfl

theorem fieldFaults_eq (done : List Definition) (d : Definition) :
    d.fieldFaults = (secondPass done d).map fun x => x.2.fault := by
  cases d with
  | object written | interface written | inputObject written | struct written =>
    exact (map_fault_fieldsAgain _ _ _).symm
  | _ => rfl

/-- One more type. -/
theorem Tracked.addType (h : Tracked done a) {type : TypeDefinition} (htype : d.type? = some type) :
    Tracked (done ++ [d]) (a.add d) := by
  have hname := Definition.typeName?_of_type? htype
  obtain ⟨hdirective, hoperations, -⟩ := Definition.of_type? htype
  have hfirst : (firstPass done d).map (fun x => x.2.fault) =
      if type.name ∈ a.defined then [.duplicateTypeDefinition type.name] else [] := by
    rw [firstPass, directiveAgain, hdirective, hoperations, typeAgain, hname]
    simp only [h.defined]
    split <;> simp [Flaw.fault]
  have hdefined : ∀ name, name ∈ (a.add d).defined ↔
      name ∈ (done ++ [d]).filterMap Definition.typeName? := by
    intro name
    rw [filterMap_concat_some hname, List.mem_append, List.mem_singleton, ← h.defined,
      add_of_type? htype, Assembly.addType]
    split
    · rename_i hagain
      constructor
      · exact .inl
      · rintro (hmem | rfl)
        · exact hmem
        · exact hagain
    · simp
  have hrest : (a.add d).schema.directives = a.schema.directives ∧
      (a.add d).faults = a.faults ++ (firstPass done d).map (fun x => x.2.fault) ∧
      (a.add d).fieldFaults = a.fieldFaults ++ d.fieldFaults := by
    rw [hfirst, add_of_type? htype, Assembly.addType]
    split <;> simp
  obtain ⟨hdirectives, hfaults, hfieldFaults⟩ := hrest
  refine ⟨hdefined, ?_, ?_, ?_⟩
  · rw [hdirectives, filterMap_concat_none hdirective]
    exact h.directives
  · rw [hfaults, h.faults, walk_concat, List.map_append]
  · rw [hfieldFaults, h.fieldFaults, walk_concat, List.map_append, ← fieldFaults_eq]

/-- A directive is known from its first definition on. -/
theorem contains_addDirective (directive : DirectiveDefinition) (name : Name) :
    (a.addDirective directive).schema.directives.contains name = true ↔
      a.schema.directives.contains name = true ∨ name = directive.name := by
  unfold Assembly.addDirective
  by_cases hagain : a.schema.directives.contains directive.name = true
  · rw [if_pos hagain]
    constructor
    · exact .inl
    · rintro (hname | rfl)
      · exact hname
      · exact hagain
  · rw [if_neg hagain]
    exact Table.contains_addNew

/-- One more directive. -/
theorem Tracked.addDirective (h : Tracked done a) (directive : DirectiveDefinition) :
    Tracked (done ++ [.directive directive]) (a.add (.directive directive)) := by
  have hstands : Definition.directive? (.directive directive) = some directive := rfl
  have hfirst : firstPass done (.directive directive) =
      if directive.name ∈ (done.filterMap Definition.directive?).map DirectiveDefinition.name then
        [(⟨0, done.length, 0⟩, .directive directive.name)] else [] := List.append_nil _
  have hfaults : (a.addDirective directive).faults =
      a.faults ++ (firstPass done (.directive directive)).map fun x => x.2.fault := by
    rw [hfirst, Assembly.addDirective]
    simp only [h.directives]
    split
    · rfl
    · exact (List.append_nil _).symm
  have hrest : (a.addDirective directive).defined = a.defined ∧
      (a.addDirective directive).fieldFaults = a.fieldFaults := by
    unfold Assembly.addDirective
    split <;> exact ⟨rfl, rfl⟩
  rw [Assembly.add]
  refine ⟨?_, ?_, ?_, ?_⟩
  · rw [hrest.1, filterMap_concat_none rfl]
    exact h.defined
  · intro name
    rw [contains_addDirective, filterMap_concat_some hstands, List.map_append, List.mem_append,
      ← h.directives, List.map_singleton, List.mem_singleton]
  · rw [hfaults, walk_concat, List.map_append, ← h.faults]
  · rw [hrest.2, walk_concat, List.map_append, ← h.fieldFaults]
    exact (List.append_nil _).symm

/-- The types of the operations. -/
theorem Tracked.addSchema (h : Tracked done a) (operations : List (Name × Name)) :
    Tracked (done ++ [.schema operations]) (a.add (.schema operations)) := by
  refine ⟨?_, ?_, ?_, ?_⟩
  · rw [filterMap_concat_none rfl]
    exact h.defined
  · rw [filterMap_concat_none rfl]
    exact h.directives
  · rw [walk_concat, List.map_append, ← h.faults]
    exact congrArg (a.faults ++ ·) (faults_foldl_setRoot done.length operations)
  · rw [walk_concat, List.map_append, ← h.fieldFaults]
    exact (List.append_nil _).symm

/-- **One more definition.** -/
theorem Tracked.add (h : Tracked done a) (d : Definition) : Tracked (done ++ [d]) (a.add d) := by
  cases d with
  | schema operations => exact h.addSchema operations
  | directive directive => exact h.addDirective directive
  | _ => exact h.addType rfl

/-- **The state after all definitions is tracked.** -/
theorem tracked (defs : List Definition) : Tracked defs (defs.foldl Assembly.add {}) := by
  induction defs using List.reverseRecOn with
  | nil => exact ⟨fun _ => Iff.rfl, fun _ => by simp [Schema.initial, Table.contains, Table.names, Table.empty], rfl, rfl⟩
  | append_singleton done d ih =>
    rw [List.foldl_concat]
    exact ih.add d

/-! ## What is reported -/

theorem fault_injective : Function.Injective Flaw.fault := by
  intro flaw other h
  -- the two messages start differently
  have hmessages : ∀ name kind : Name, (Flaw.directive name).fault ≠ (Flaw.operation kind).fault := by
    intro name kind h
    have hhead := congrArg (fun s => s.toList.head?) (Fault.invalidGraphQL.inj h)
    simp [toString] at hhead
  cases flaw with
  | type name => cases other <;> cases h; rfl
  | field typeName fieldName => cases other <;> cases h; rfl
  | directive name =>
    cases other with
    | directive other =>
      have htext : toString name = toString other := by
        simpa using Fault.invalidGraphQL.inj h
      rw [Name.ext_text htext]
    | operation kind => exact absurd h (hmessages name kind)
    | type => cases h
    | field => cases h
  | operation kind =>
    cases other with
    | operation other =>
      have htext : toString kind = toString other := by
        simpa using Fault.invalidGraphQL.inj h
      rw [Name.ext_text htext]
    | directive name => exact absurd h.symm (hmessages name kind)
    | type => cases h
    | field => cases h

/-- **Flaws in the order in which they are first found**, each once. -/
structure Firsts (found : List (Spot × Flaw)) (flaws : List Flaw) : Prop where
  nodup : flaws.Nodup
  mem : ∀ flaw, flaw ∈ flaws ↔ ∃ spot, (spot, flaw) ∈ found
  sorted : flaws.Pairwise fun first second => ∃ spot, (spot, first) ∈ found ∧
    ∀ other, (other, second) ∈ found → spot.Before other

/-- A spot before all of a flaw stays so when one more is found, if this one comes later or is of
another flaw. -/
theorem exists_before_concat {found : List (Spot × Flaw)} {first second : Flaw}
    (h : ∃ place, (place, first) ∈ found ∧
      ∀ other, (other, second) ∈ found → place.Before other)
    (hlast : second = flaw → ∀ place, (place, first) ∈ found → place.Before spot) :
    ∃ place, (place, first) ∈ found ++ [(spot, flaw)] ∧
      ∀ other, (other, second) ∈ found ++ [(spot, flaw)] → place.Before other := by
  obtain ⟨place, hplace, hbefore⟩ := h
  refine ⟨place, List.mem_append_left _ hplace, ?_⟩
  intro other hother
  rcases List.mem_append.1 hother with hother | hother
  · exact hbefore other hother
  · obtain ⟨rfl, hflaw⟩ := Prod.mk.inj (List.mem_singleton.1 hother)
    exact hlast hflaw place hplace

/-- What is found again is no news. -/
theorem Firsts.again {found : List (Spot × Flaw)} {flaws : List Flaw} (h : Firsts found flaws)
    (hlater : ∀ x ∈ found, FoundBefore x (spot, flaw)) (hagain : flaw ∈ flaws) :
    Firsts (found ++ [(spot, flaw)]) flaws := by
  refine ⟨h.nodup, ?_, ?_⟩
  · intro other
    simp only [List.mem_append, List.mem_singleton, Prod.mk.injEq]
    constructor
    · intro hmem
      obtain ⟨place, hplace⟩ := (h.mem other).1 hmem
      exact ⟨place, .inl hplace⟩
    · rintro ⟨place, hplace | ⟨-, rfl⟩⟩
      · exact (h.mem other).2 ⟨place, hplace⟩
      · exact hagain
  · refine h.sorted.imp ?_
    intro first second hbefore
    exact exists_before_concat hbefore fun _ place hplace => hlater _ hplace

/-- What is found for the first time comes last. -/
theorem Firsts.new {found : List (Spot × Flaw)} {flaws : List Flaw} (h : Firsts found flaws)
    (hlater : ∀ x ∈ found, FoundBefore x (spot, flaw)) (hnew : flaw ∉ flaws) :
    Firsts (found ++ [(spot, flaw)]) (flaws ++ [flaw]) := by
  have hmem : ∀ other, (∃ place, (place, other) ∈ found ++ [(spot, flaw)]) ↔
      other ∈ flaws ∨ other = flaw := by
    intro other
    simp only [List.mem_append, List.mem_singleton, Prod.mk.injEq, h.mem]
    constructor
    · rintro ⟨place, hplace | ⟨-, rfl⟩⟩
      · exact .inl ⟨place, hplace⟩
      · exact .inr rfl
    · rintro (⟨place, hplace⟩ | rfl)
      · exact ⟨place, .inl hplace⟩
      · exact ⟨spot, .inr ⟨rfl, rfl⟩⟩
  refine ⟨nodup_concat_iff.2 ⟨h.nodup, hnew⟩, ?_, ?_⟩
  · intro other
    rw [hmem, List.mem_append, List.mem_singleton]
  · rw [List.pairwise_append]
    refine ⟨?_, List.pairwise_singleton _ _, ?_⟩
    · refine h.sorted.imp_of_mem ?_
      intro first second _ hsecond hbefore
      refine exists_before_concat hbefore ?_
      rintro rfl
      exact absurd hsecond hnew
    · intro first hfirst second hsecond
      obtain rfl := List.mem_singleton.1 hsecond
      obtain ⟨place, hplace⟩ := (h.mem first).1 hfirst
      -- so far the flaw that comes last was found nowhere
      refine exists_before_concat ⟨place, hplace, ?_⟩ fun _ place hplace => hlater _ hplace
      intro other hother
      exact absurd ((h.mem second).2 ⟨other, hother⟩) hnew

/-- **The report of what is found** has each flaw once, in the order in which they are first found. -/
theorem exists_firsts {l : List (Spot × Flaw)} (h : l.Pairwise FoundBefore) :
    ∃ flaws, Firsts l flaws ∧
      (Report.ofList (l.map fun x => x.2.fault)).faults = flaws.map Flaw.fault := by
  induction l using List.reverseRecOn with
  | nil => exact ⟨[], ⟨List.nodup_nil, by simp, .nil⟩, rfl⟩
  | append_singleton l x ih =>
    obtain ⟨spot, flaw⟩ := x
    obtain ⟨hl, -, hlater⟩ := List.pairwise_append.1 h
    obtain ⟨flaws, hfirsts, hreport⟩ := ih hl
    have hbefore : ∀ x ∈ l, FoundBefore x (spot, flaw) := fun x hx =>
      hlater x hx _ (List.mem_singleton_self _)
    have hmem : flaw.fault ∈ (Report.ofList (l.map fun x => x.2.fault)).faults ↔ flaw ∈ flaws := by
      rw [hreport, List.mem_map_of_injective fault_injective]
    rw [List.map_append, List.map_singleton, Report.faults_ofList_concat]
    by_cases hagain : flaw ∈ flaws
    · refine ⟨flaws, hfirsts.again hbefore hagain, ?_⟩
      rw [if_pos (hmem.2 hagain), hreport]
    · refine ⟨flaws ++ [flaw], hfirsts.new hbefore hagain, ?_⟩
      rw [if_neg (fun hf => hagain (hmem.1 hf)), hreport, List.map_append, List.map_singleton]

/-- What is reported is what was found. -/
theorem faults_assemble (defs : List Definition) :
    (defs.foldl Assembly.add {}).faults ++ (defs.foldl Assembly.add {}).fieldFaults =
      (found defs).map fun x => x.2.fault := by
  have htracked := tracked defs
  rw [htracked.faults, htracked.fieldFaults, found, List.map_append]

theorem assemble_eq (defs : List Definition) :
    assemble defs = (Checked.mk (defs.foldl Assembly.add {}).schema
      ((found defs).map fun x => x.2.fault)).result := by
  rw [← faults_assemble]
  rfl

/-! ## Without flaws -/

theorem nodup_of_repeated {names : List Name} (h : repeated names = []) : names.Nodup := by
  rw [repeated_eq_walk] at h
  induction names using List.reverseRecOn with
  | nil => exact List.nodup_nil
  | append_singleton names name ih =>
    rw [walk_concat, List.append_eq_nil_iff] at h
    obtain ⟨hnames, hname⟩ := h
    refine nodup_concat_iff.2 ⟨ih hnames, ?_⟩
    intro hagain
    rw [if_pos hagain] at hname
    cases hname

/-- If nothing is found, then nothing is defined twice. -/
theorem noNamesakes_of_walk (h : walk firstPass defs = []) : NoNamesakes defs := by
  induction defs using List.reverseRecOn with
  | nil => exact ⟨List.nodup_nil, List.nodup_nil⟩
  | append_singleton done d ih =>
    rw [walk_concat, List.append_eq_nil_iff, firstPass, List.append_eq_nil_iff,
      List.append_eq_nil_iff] at h
    obtain ⟨hdone, ⟨htype, hdirective⟩, -⟩ := h
    obtain ⟨htypes, hdirectives⟩ := ih hdone
    refine ⟨?_, ?_⟩
    · cases hname : d.typeName? with
      | none => rwa [filterMap_concat_none hname]
      | some name =>
        rw [filterMap_concat_some hname, nodup_concat_iff]
        refine ⟨htypes, ?_⟩
        intro hagain
        simp [typeAgain, hname, hagain] at htype
    · cases hstands : d.directive? with
      | none => rwa [filterMap_concat_none hstands]
      | some directive =>
        rw [filterMap_concat_some hstands, List.map_append, List.map_singleton, nodup_concat_iff]
        refine ⟨hdirectives, ?_⟩
        intro hagain
        rw [directiveAgain, hstands] at hdirective
        dsimp only at hdirective
        rw [if_pos hagain] at hdirective
        cases hdirective

/-- If nothing is found, then no definition has a field twice. -/
theorem nodup_fields_of_walk (h : walk secondPass defs = []) (hd : d ∈ defs) :
    (d.fields.map Field.name).Nodup := by
  have hnone : d.fieldFaults = [] := by
    obtain ⟨done, rest, rfl⟩ := List.append_of_mem hd
    rw [fieldFaults_eq done, List.map_eq_nil_iff, List.eq_nil_iff_forall_not_mem]
    intro x hx
    have hmem : x ∈ walk secondPass (done ++ d :: rest) := mem_walk.2 ⟨done, d, rest, rfl, hx⟩
    rw [h] at hmem
    cases hmem
  cases d with
  | object _ | interface _ | inputObject _ | struct _ =>
    exact nodup_of_repeated (List.map_eq_nil_iff.1 hnone)
  | _ => exact List.nodup_nil

theorem mem_registry {types : List TypeDefinition} {type : TypeDefinition}
    (hnd : (types.map TypeDefinition.name).Nodup) (h : type ∈ types) : type ∈ registry types := by
  rw [registry_eq, List.mem_append]
  by_cases hbuiltIn : type.name ∈ builtInScalars
  · have hfind : types.find? (fun t => t.name = type.name) = some type :=
      Table.find?_of_mem (t := ⟨types, hnd⟩) h
    refine .inl (List.mem_map.2 ⟨type.name, hbuiltIn, ?_⟩)
    rw [builtIn, hfind, Option.getD_some]
  · exact .inr (List.mem_filter.2 ⟨h, by simpa using hbuiltIn⟩)

/-- **All that is defined is in the schema**, under its own name: every type with all its fields, and
every directive. Of the values of an enum one that stands twice is kept once. -/
structure Includes (defs : List Definition) (schema : Schema) : Prop where
  types : ∀ d ∈ defs, ∀ name, d.typeName? = some name → ∃ type, schema.type? name = some type ∧
    d.type? = some type ∧ (d.values.Nodup → Defines d type)
  directives : ∀ directive, .directive directive ∈ defs →
    schema.directives.find? directive.name = some directive
  typeNames : ∀ name type, schema.type? name = some type → type.name = name
  directiveNames : ∀ name directive, schema.directives.find? name = some directive →
    directive.name = name

theorem includes_of_found (h : found defs = []) :
    Includes defs (defs.foldl Assembly.add {}).schema := by
  obtain ⟨hfirst, hsecond⟩ := List.append_eq_nil_iff.1 h
  have hnames := noNamesakes_of_walk hfirst
  have hcollected := hnames.collected
  refine ⟨?_, ?_, fun _ _ => Schema.name_of_type?, fun _ _ => Table.nameOf_of_find?⟩
  · intro d hd name hname
    cases htype : d.type? with
    | none =>
      have hnone := d.map_name_type?
      rw [htype, hname] at hnone
      cases hnone
    | some type =>
      obtain rfl : name = type.name :=
        Option.some.inj (hname.symm.trans (Definition.typeName?_of_type? htype))
      have hmem : type ∈ (defs.foldl Assembly.add {}).schema.types.toList := by
        rw [hcollected.types]
        refine mem_registry ?_ (List.mem_filterMap.2 ⟨d, hd, htype⟩)
        rw [map_name_types]
        exact hnames.types
      refine ⟨type, Table.find?_of_mem hmem, rfl, ?_⟩
      intro hvalues
      exact defines_of_type? (nodup_fields_of_walk hsecond hd) hvalues htype
  · intro directive hdirective
    have hmem : directive ∈ (defs.foldl Assembly.add {}).schema.directives.toList := by
      rw [hcollected.directives]
      exact List.mem_filterMap.2 ⟨_, hdirective, rfl⟩
    exact Table.find?_of_mem hmem

/-- **Every flaw is reported once, and nothing is dropped without one.** There is a schema just if
no type and no directive is defined twice, no definition has a field twice, and all operations exist.
Then all that is defined is in the schema. Else the faults are one for each flaw, in the order in
which they are first found, those of fields after all others. -/
theorem assemble_reports_repetitions (defs : List Definition) :
    ((∃ schema, assemble defs = .ok schema) ↔ ∀ spot flaw, ¬ HasFlaw defs spot flaw) ∧
      (∀ schema, assemble defs = .ok schema → Includes defs schema) ∧
      ∀ failure, assemble defs = .error failure → ∃ flaws : List Flaw,
        failure.faults = flaws.map Flaw.fault ∧ flaws.Nodup ∧
        (∀ flaw, flaw ∈ flaws ↔ ∃ spot, HasFlaw defs spot flaw) ∧
        flaws.Pairwise fun first second => ∃ spot, HasFlaw defs spot first ∧
          ∀ other, HasFlaw defs other second → spot.Before other := by
  have hresult := assemble_eq defs
  have hnil : found defs = [] ↔ ∀ spot flaw, ¬ HasFlaw defs spot flaw := by
    rw [List.eq_nil_iff_forall_not_mem]
    constructor
    · intro h spot flaw hflaw
      exact h (spot, flaw) (mem_found.2 hflaw)
    · rintro h ⟨spot, flaw⟩ hmem
      exact h spot flaw (mem_found.1 hmem)
  have hok : ∀ schema, assemble defs = .ok schema →
      found defs = [] ∧ (defs.foldl Assembly.add {}).schema = schema := by
    intro schema h
    obtain ⟨hfaults, hschema⟩ := Checked.result_eq_ok (hresult ▸ h)
    exact ⟨List.map_eq_nil_iff.1 hfaults, hschema⟩
  refine ⟨?_, ?_, ?_⟩
  · rw [← hnil]
    constructor
    · rintro ⟨schema, h⟩
      exact (hok schema h).1
    · intro h
      rw [hresult, h]
      exact ⟨_, rfl⟩
  · intro schema h
    obtain ⟨hfound, rfl⟩ := hok schema h
    exact includes_of_found hfound
  · intro failure h
    obtain ⟨flaws, hfirsts, hreport⟩ := exists_firsts (pairwise_found defs)
    have hfaults : failure.faults = flaws.map Flaw.fault := by
      rw [← hreport, ← Checked.faultsOf_result (Checked.mk (defs.foldl Assembly.add {}).schema _),
        ← hresult, h]
      rfl
    refine ⟨flaws, hfaults, hfirsts.nodup, ?_, ?_⟩
    · simpa only [mem_found] using hfirsts.mem
    · simpa only [mem_found] using hfirsts.sorted

end

end StructQL.SDL
