import StructQL.Proofs.Fault.Report
import StructQL.Proofs.Input.Faults
import StructQL.Proofs.Schema.Members

/-!
# Coercion is exact

* `Report.Fresh`: nothing was reported yet at a place or below it.
* `run_coerceValue`: from a fresh report, coercion pushes the faults of the value, each of them
  new, and has a value just if there are none. This is why a struct may tell by the length of the
  report whether one of its fields failed.
* `faultsOf_coerce`: coercion answers with the faults of the value.
* `run_of_coerces`: a value that stands for another one is coerced to it, and nothing is reported.
* `coerce_eq_ok_iff`: coercion succeeds with the values that the relation gives.
-/

namespace StructQL

/-- Nothing was reported yet at a place or below it. -/
def Report.Fresh (r : Report) (path : InputPath) : Prop := ∀ f ∈ r.faults, ¬ path.Covers f

namespace Report.Fresh

variable {r : Report} {path : InputPath} {s : InputStep} {l : List Fault}

theorem step (h : r.Fresh path) (s : InputStep) : r.Fresh (path.step s) :=
  fun f hf hc => h f hf hc.of_step

theorem pushAll (h : r.Fresh path) (hl : ∀ f ∈ l, ¬ path.Covers f) : (r.pushAll l).Fresh path := by
  intro f hf
  rcases Report.mem_pushAll.1 hf with hf | hf
  · exact h f hf
  · exact hl f hf

theorem not_mem (h : r.Fresh path) {f : Fault} (hf : path.Covers f) : f ∉ r.faults :=
  fun hm => h f hm hf

end Report.Fresh

namespace InputCoercer

/-- **What a step leaves behind** that found the given faults: they were pushed, and there is a
value, which has the property, just if there are none. -/
structure Outcome {α : Type} (r : Report) (faults : List Fault) (P : α → Prop)
    (out : Option α × Report) : Prop where
  report : out.2 = r.pushAll faults
  none_iff : out.1 = none ↔ faults ≠ []
  value : ∀ a, out.1 = some a → P a

theorem Outcome.refuse {α : Type} {r : Report} {f : Fault} {P : α → Prop} :
    Outcome r [f] P ((Reporting.refuse f).run r) :=
  ⟨rfl, by simp [Reporting.run_refuse], fun a h => by cases h⟩

theorem Outcome.done {α : Type} {r : Report} {P : α → Prop} {a : α} (h : P a) :
    Outcome r [] P ((pure (some a) : Reporting (Option α)).run r) :=
  ⟨rfl, by simp, fun b hb => by cases hb; exact h⟩

variable {c : InputCoercer}

theorem mapM_id_cons {α : Type} (x : Option α) (l : List (Option α)) :
    (x :: l).mapM id = x.bind fun a => (l.mapM id).map (a :: ·) := by
  rw [List.mapM_cons]
  cases x with
  | none => rfl
  | some a => cases l.mapM id <;> rfl

/-- The values that the items of a list stand for. -/
def ItemsCoerce (c : InputCoercer) (item : TypeRef) (vs : List Json)
    (values : List CoercedValue) : Prop :=
  values.length = vs.length ∧
    ∀ (i : Nat) v value, vs[i]? = some v → values[i]? = some value → Coerces c item v value

theorem ItemsCoerce.cons {item : TypeRef} {v : Json} {vs : List Json} {value : CoercedValue}
    {values : List CoercedValue} (h : Coerces c item v value) (hs : ItemsCoerce c item vs values) :
    ItemsCoerce c item (v :: vs) (value :: values) := by
  refine ⟨by simp [hs.1], fun i w x hw hx => ?_⟩
  cases i with
  | zero =>
    simp only [List.getElem?_cons_zero, Option.some.injEq] at hw hx
    subst hw; subst hx
    exact h
  | succ i => exact hs.2 i w x (by simpa using hw) (by simpa using hx)

/-- The values that the fields of an object stand for. -/
structure FieldsCoerce (c : InputCoercer) (decls : List Field) (entries : List (String × Json))
    (fields : List (Name × CoercedValue)) : Prop where
  names : fields.map Prod.fst = (presentFields decls entries).map Field.name
  each : ∀ field v value, field ∈ decls → entries.lookup field.name.text = some v →
    (field.name, value) ∈ fields → Coerces c field.type v value
  missing : ∀ field ∈ decls, entries.lookup field.name.text = none → field.type.isNonNull = false

namespace FieldsCoerce

variable {field : Field} {decls : List Field} {entries : List (String × Json)}
  {fields : List (Name × CoercedValue)} {v : Json} {value : CoercedValue}

theorem mem_names (h : FieldsCoerce c decls entries fields) {name : Name}
    (hm : (name, value) ∈ fields) : name ∈ decls.map Field.name := by
  have hn : name ∈ fields.map Prod.fst := List.mem_map.2 ⟨_, hm, rfl⟩
  rw [h.names] at hn
  exact (List.filter_sublist.map _).subset hn

theorem nil : FieldsCoerce c [] entries [] :=
  ⟨rfl, by simp, by simp⟩

theorem cons (hl : entries.lookup field.name.text = some v) (hv : Coerces c field.type v value)
    (hnew : field.name ∉ decls.map Field.name) (h : FieldsCoerce c decls entries fields) :
    FieldsCoerce c (field :: decls) entries ((field.name, value) :: fields) := by
  refine ⟨by simp [presentFields, hl, h.names], fun g w x hg hw hx => ?_, fun g hg hw => ?_⟩
  · rcases List.mem_cons.1 hg with rfl | hg
    · rw [hl] at hw
      cases hw
      rcases List.mem_cons.1 hx with hx | hx
      · cases hx; exact hv
      · exact absurd (h.mem_names hx) hnew
    · rcases List.mem_cons.1 hx with hx | hx
      · exact absurd (List.mem_map.2 ⟨g, hg, (Prod.mk.inj hx).1⟩) hnew
      · exact h.each g w x hg hw hx
  · rcases List.mem_cons.1 hg with rfl | hg
    · rw [hl] at hw; cases hw
    · exact h.missing g hg hw

theorem skip (hl : entries.lookup field.name.text = none) (hn : field.type.isNonNull = false)
    (h : FieldsCoerce c decls entries fields) :
    FieldsCoerce c (field :: decls) entries fields := by
  refine ⟨by simp [presentFields, hl, h.names], fun g w x hg hw hx => ?_, fun g hg hw => ?_⟩
  · rcases List.mem_cons.1 hg with rfl | hg
    · rw [hl] at hw; cases hw
    · exact h.each g w x hg hw hx
  · rcases List.mem_cons.1 hg with rfl | hg
    · exact hn
    · exact h.missing g hg hw

end FieldsCoerce

/-! ## From a fresh report -/

variable {r : Report} {path : InputPath}

theorem Outcome.map {α β : Type} {faults : List Fault} {P : α → Prop} {Q : β → Prop}
    {out : Option α × Report} {f : α → β} (h : Outcome r faults P out)
    (hQ : ∀ a, P a → Q (f a)) : Outcome r faults Q (out.1.map f, out.2) := by
  refine ⟨h.report, ?_, fun b hb => ?_⟩
  · rw [← h.none_iff]
    exact Option.map_eq_none_iff
  · obtain ⟨a, ha, rfl⟩ := Option.map_eq_some_iff.1 hb
    exact hQ a (h.value a ha)

theorem Outcome.both {α β γ : Type} {l₁ l₂ : List Fault} {P : α → Prop} {Q : β → Prop}
    {R : γ → Prop} {step₁ : Reporting (Option α)} {step₂ : Reporting (Option β)} {f : α → β → γ}
    (h₁ : Outcome r l₁ P (step₁.run r)) (h₂ : Outcome (r.pushAll l₁) l₂ Q (step₂.run (r.pushAll l₁)))
    (hR : ∀ a b, P a → Q b → R (f a b)) :
    Outcome r (l₁ ++ l₂) R ((do
      let a ← step₁
      let b ← step₂
      return a.bind fun a => b.map (f a) : Reporting (Option γ)).run r) := by
  simp only [Reporting.run_bind, Reporting.run_pure]
  rw [h₁.report]
  refine ⟨?_, ?_, fun c hc => ?_⟩
  · rw [Report.pushAll_append]
    exact h₂.report
  · have n₁ := h₁.none_iff
    have n₂ := h₂.none_iff
    rw [Option.bind_eq_none_iff, ne_eq, List.append_eq_nil_iff]
    cases ha : (step₁.run r).1 with
    | none => simp [n₁.1 ha]
    | some a =>
      -- only faults of the second step are left
      have : l₁ = [] := by
        by_contra hne
        rw [n₁.2 hne] at ha
        cases ha
      subst this
      simpa using n₂
  · obtain ⟨a, ha, hb⟩ := Option.bind_eq_some_iff.1 hc
    obtain ⟨b, hb', rfl⟩ := Option.map_eq_some_iff.1 hb
    exact hR a b (h₁.value a ha) (h₂.value b hb')

theorem outcome_leafOrRefusal {result : Except String Json} {P : CoercedValue → Prop}
    (h : ∀ v, result = .ok v → P (.leaf v)) :
    Outcome r (leafFaults path result) P ((leafOrRefusal path result).run r) := by
  cases result with
  | ok v => exact .done (h v rfl)
  | error message => exact .refuse

/-- A struct has a value if the report is as long after its fields as it was before. -/
theorem run_coerceStruct_eq (type : StructType) (entries : List (String × Json)) :
    (c.coerceStruct type entries path).run r =
      let out := (c.coerceFields type.name type.fields.toList entries path).run
        (r.pushAll (c.unknownFieldFaults type entries path))
      (if out.2.faults.length = r.faults.length then some (.struct type.name out.1) else none,
        out.2) := by
  rw [coerceStruct]
  rfl

theorem run_coerceFields_none {structName : Name} {field : Field} {rest : List Field}
    {entries : List (String × Json)} (h : entries.lookup field.name.text = none) :
    (c.coerceFields structName (field :: rest) entries path).run r =
      (c.coerceFields structName rest entries path).run
        (r.pushAll (missingFaults structName field path)) := by
  rw [coerceFields_none h]
  unfold missingFaults
  split <;> rfl

mutual

/-- **Coercion pushes the faults of the value**, and has a value just if there are none. -/
theorem run_coerceValue (type : TypeRef) (v : Json) (path : InputPath) (r : Report)
    (hr : r.Fresh path) :
    Outcome r (c.valueFaults type v path) (Coerces c type v)
      ((c.coerceValue type v path).run r) := by
  by_cases hv : v = .null
  · subst hv
    rw [coerceValue_null, valueFaults_null]
    by_cases hn : type.isNonNull = true
    · rw [if_pos hn, if_pos hn]
      exact .refuse
    · rw [if_neg hn, if_neg hn]
      exact .done (.null (by simpa using hn))
  match type with
  | .named name nonNull =>
    rw [coerceValue_named hv, valueFaults_named hv]
    exact run_coerceNamed name nonNull v path r hv hr
  | .list item nonNull =>
    by_cases ha : ∃ items, v = .array items
    · obtain ⟨items, rfl⟩ := ha
      rw [coerceValue_array, valueFaults_array]
      have h := run_coerceItems item items path 0 r fun j _ => hr.step _
      exact h.map fun values hs => .items hs.1 hs.2
    · have ha : ∀ items, v ≠ .array items := fun items e => ha ⟨items, e⟩
      rw [coerceValue_single hv ha, valueFaults_single hv ha]
      exact (run_coerceValue item v path r hr).map fun value h => .single hv ha h
termination_by (sizeOf v, sizeOf type, 0)

/-- The items of a list, from an index on. -/
theorem run_coerceItems (item : TypeRef) (items : List Json) (path : InputPath) (i : Nat)
    (r : Report) (hr : ∀ j, i ≤ j → r.Fresh (path.step (.index j))) :
    Outcome r (c.itemsFaults item items path i) (ItemsCoerce c item items)
      ((do let values ← c.coerceItems item items path i
           return values.mapM id : Reporting (Option (List CoercedValue))).run r) := by
  match items with
  | [] =>
    rw [coerceItems, itemsFaults]
    exact .done ⟨rfl, by simp⟩
  | v :: rest =>
    rw [coerceItems, itemsFaults]
    have h₁ := run_coerceValue item v (path.step (.index i)) r (hr i (Nat.le_refl i))
    -- the faults of an item are below its index, so the places of later items stay fresh
    have h₂ := run_coerceItems item rest path (i + 1)
      (r.pushAll (c.valueFaults item v (path.step (.index i)))) fun j hj =>
        (hr j (by omega)).pushAll fun f hf hc => by
          have := (covers_of_mem_valueFaults item v _ f hf).same_step hc
          cases this
          omega
    have h := h₁.both h₂ fun value values => ItemsCoerce.cons
    simp only [Reporting.run_bind, Reporting.run_pure] at h ⊢
    rw [mapM_id_cons]
    exact h
termination_by (sizeOf items, 0, 0)

theorem run_coerceNamed (name : Name) (nonNull : Bool) (v : Json) (path : InputPath) (r : Report)
    (hv : v ≠ .null) (hr : r.Fresh path) :
    Outcome r (c.namedFaults name v path) (Coerces c (.named name nonNull) v)
      ((c.coerceNamed name v path).run r) := by
  rw [coerceNamed.eq_def, namedFaults.eq_def]
  dsimp only
  match htype : c.schema.type? name with
  | some (.scalar scalarName) => exact outcome_leafOrRefusal fun leaf h => .scalar hv htype h
  | some (.enum type) => exact outcome_leafOrRefusal fun leaf h => .enum hv htype h
  | some (.struct type) =>
    match v with
    | .object entries =>
      dsimp only
      have hname : type.name = name := Schema.name_of_type? htype
      match ht : typenameFault? name entries path with
      | none =>
        have h := run_coerceStruct type entries path r hr
        refine ⟨h.report, h.none_iff, fun value hvalue => ?_⟩
        obtain ⟨fields, rfl, hf, hk⟩ := h.value value hvalue
        rw [hname]
        exact .struct htype (typenameFault?_eq_none_iff.1 ht) hf.names hf.each hf.missing hk
      | some fault => exact .refuse
    | .null | .bool _ | .number _ | .string _ | .array _ => exact .refuse
  | some (.structUnion union) =>
    match v with
    | .object entries =>
      dsimp only
      match hd : discriminate c union entries path with
      | .ok type =>
        have h := run_coerceStruct type entries path r hr
        refine ⟨h.report, h.none_iff, fun value hvalue => ?_⟩
        obtain ⟨fields, rfl, hf, hk⟩ := h.value value hvalue
        obtain ⟨member, hm, hl, hstruct⟩ := discriminate_eq_ok_iff.1 hd
        have hname : type.name = member := Schema.name_of_type? hstruct
        rw [hname]
        -- the object names the member, so it may stand for a value of the member itself
        refine .member htype hm hl (.struct hstruct (fun v hv => ?_) hf.names hf.each hf.missing hk)
        rw [hl] at hv
        exact (Option.some.inj hv).symm
      | .error fault => exact .refuse
    | .null | .bool _ | .number _ | .string _ | .array _ => exact .refuse
  | some (.object _) | some (.interface _) | some (.union _) | some (.inputObject _)
  | none => exact .refuse
termination_by (sizeOf v, 0, 1)

/-- An object as a value of a struct: the report grows just if something is wrong with it. -/
theorem run_coerceStruct (type : StructType) (entries : List (String × Json)) (path : InputPath)
    (r : Report) (hr : r.Fresh path) :
    Outcome r (c.structFaults type entries path)
      (fun value => ∃ fields, value = .struct type.name fields ∧
        FieldsCoerce c type.fields.toList entries fields ∧
        (c.config.rejectUnknownInputFields = true → Known type entries))
      ((c.coerceStruct type entries path).run r) := by
  have hfields := run_coerceFields type.name type.fields.toList entries path
    (r.pushAll (c.unknownFieldFaults type entries path)) type.fields.nodup fun field _ =>
      (hr.step _).pushAll fun f hf =>
        InputPath.not_covers_step (place?_of_mem_unknownFieldFaults hf)
  -- the invariant of the report: no fault of this struct was reported before, so none is dropped
  have hnew : ∀ f ∈ c.structFaults type entries path, f ∉ r.faults := fun f hf =>
    hr.not_mem (covers_of_mem_structFaults type entries path f hf)
  rw [run_coerceStruct_eq]
  dsimp only
  rw [hfields.1, ← Report.pushAll_append, ← structFaults]
  have hgrown := Report.length_pushAll_eq_iff hnew
  refine ⟨rfl, ?_, fun value hvalue => ?_⟩
  · simp [hgrown]
  · have hnil : c.structFaults type entries path = [] := by
      by_contra hne
      simp [hgrown, hne] at hvalue
    rw [if_pos (hgrown.2 hnil)] at hvalue
    rw [structFaults, List.append_eq_nil_iff] at hnil
    exact ⟨_, (Option.some.inj hvalue).symm, hfields.2 hnil.2,
      unknownFieldFaults_eq_nil_iff.1 hnil.1⟩
termination_by (sizeOf entries, 1, 0)

/-- The fields of a struct, whose names differ, so that none is reported below another. -/
theorem run_coerceFields (structName : Name) (fields : List Field)
    (entries : List (String × Json)) (path : InputPath) (r : Report)
    (hnd : (fields.map Field.name).Nodup)
    (hr : ∀ field ∈ fields, r.Fresh (path.step (.field field.name))) :
    ((c.coerceFields structName fields entries path).run r).2 =
        r.pushAll (c.fieldsFaults structName fields entries path) ∧
      (c.fieldsFaults structName fields entries path = [] →
        FieldsCoerce c fields entries
          ((c.coerceFields structName fields entries path).run r).1) := by
  match fields with
  | [] =>
    rw [coerceFields, fieldsFaults]
    exact ⟨rfl, fun _ => .nil⟩
  | field :: rest =>
    rw [List.map_cons, List.nodup_cons] at hnd
    match hl : entries.lookup field.name.text with
    | some v =>
      rw [coerceFields_some hl, fieldsFaults_some hl, Report.pushAll_append]
      have h₁ := run_coerceValue field.type v (path.step (.field field.name)) r
        (hr field List.mem_cons_self)
      -- what is reported below this field is not below another, as their names differ
      have h₂ := run_coerceFields structName rest entries path
        (r.pushAll (c.valueFaults field.type v (path.step (.field field.name)))) hnd.2
        fun g hg => (hr g (List.mem_cons_of_mem _ hg)).pushAll fun f hf hc => by
          have := InputStep.field.inj ((covers_of_mem_valueFaults field.type v _ f hf).same_step hc)
          exact hnd.1 (List.mem_map.2 ⟨g, hg, this.symm⟩)
      simp only [Reporting.run_bind, Reporting.run_pure]
      rw [h₁.report]
      refine ⟨h₂.1, fun hnil => ?_⟩
      rw [List.append_eq_nil_iff] at hnil
      cases hvalue : ((c.coerceValue field.type v (path.step (.field field.name))).run r).1 with
      | none => exact absurd hnil.1 (h₁.none_iff.1 hvalue)
      | some value => exact .cons hl (h₁.value value hvalue) hnd.1 (h₂.2 hnil.2)
    | none =>
      rw [run_coerceFields_none hl, fieldsFaults_none hl, Report.pushAll_append]
      have h₂ := run_coerceFields structName rest entries path
        (r.pushAll (missingFaults structName field path)) hnd.2
        fun g hg => (hr g (List.mem_cons_of_mem _ hg)).pushAll fun f hf =>
          InputPath.not_covers_step (place?_of_mem_missingFaults hf)
      refine ⟨h₂.1, fun hnil => ?_⟩
      rw [List.append_eq_nil_iff] at hnil
      refine .skip hl ?_ (h₂.2 hnil.2)
      by_contra hn
      simp [missingFaults, hn] at hnil
termination_by (sizeOf entries, 0, fields.length)
decreasing_by
  · exact .left _ _ (Pairs.sizeOf_lookup_lt hl)
  · exact .right _ (.right _ (Nat.lt_succ_self _))
  · exact .right _ (.right _ (Nat.lt_succ_self _))

end

/-! ## What coercion answers with -/

/-- Where nothing is reported there is a value, and where something is there is none. -/
theorem answer_of_outcome {α : Type} {step : Reporting (Option α)} {missing : Fault}
    {faults : List Fault} {P : α → Prop} (h : Outcome .empty faults P (step.run .empty)) :
    faultsOf (step.result missing) = (Report.ofList faults).faults ∧
      ((∃ a, step.result missing = .ok a) ↔ faults = []) := by
  unfold Reporting.result
  obtain ⟨hreport, hnone, -⟩ := h
  generalize step.run .empty = out at hreport hnone ⊢
  obtain ⟨value, report⟩ := out
  obtain rfl : report = Report.ofList faults := hreport
  dsimp only at hnone ⊢
  by_cases hnil : faults = []
  · subst hnil
    cases value with
    | none => exact absurd rfl (hnone.1 rfl)
    | some a => exact ⟨rfl, iff_of_true ⟨a, rfl⟩ rfl⟩
  · have hsome : ¬ (Report.ofList faults).faults.isEmpty = true := by
      rw [List.isEmpty_iff, Report.ofList_eq_nil_iff]
      exact hnil
    rw [if_neg hsome]
    exact ⟨Failure.faults_ofReport _, iff_of_false nofun hnil⟩

theorem outcome_coerceValue (root : String) (type : TypeRef) (v : Json) :
    Outcome .empty (c.valueFaults type v ⟨root, []⟩) (Coerces c type v)
      ((c.coerceValue type v ⟨root, []⟩).run .empty) :=
  run_coerceValue type v _ _ fun _ hf => absurd hf List.not_mem_nil

/-- **Coercion answers with the faults of the value**, each reported once. -/
theorem faultsOf_coerce (root : String) (type : TypeRef) (v : Json) :
    faultsOf (c.coerce root type v) =
      (Report.ofList (c.valueFaults type v ⟨root, []⟩)).faults :=
  (answer_of_outcome (outcome_coerceValue root type v)).1

/-- Coercion succeeds just if the value has no faults. -/
theorem exists_coerce_iff (root : String) (type : TypeRef) (v : Json) :
    (∃ value, c.coerce root type v = .ok value) ↔ c.valueFaults type v ⟨root, []⟩ = [] :=
  (answer_of_outcome (outcome_coerceValue root type v)).2

/-! ## From a value that stands for another -/

theorem mapM_id_map_some {α : Type} (l : List α) : (l.map some).mapM id = some l := by
  induction l with
  | nil => rfl
  | cons a l ih => rw [List.map_cons, mapM_id_cons, ih]; rfl

theorem run_coerceItems_of {item : TypeRef} {path : InputPath} {vs : List Json} :
    ∀ {values : List CoercedValue}, values.length = vs.length →
      (∀ (i : Nat) v value, vs[i]? = some v → values[i]? = some value →
        ∀ path r, (c.coerceValue item v path).run r = (some value, r)) →
      ∀ i r, (c.coerceItems item vs path i).run r = (values.map some, r) := by
  induction vs with
  | nil =>
    intro values hlen _ i r
    rw [List.eq_nil_of_length_eq_zero hlen, coerceItems]
    rfl
  | cons v vs ih =>
    intro values hlen heach i r
    cases values with
    | nil => cases hlen
    | cons value values =>
      have h₁ := heach 0 v value rfl rfl (path.step (.index i)) r
      have h₂ := ih (Nat.succ.inj hlen) (fun j w x hw hx => heach (j + 1) w x hw hx) (i + 1) r
      rw [coerceItems]
      simp only [Reporting.run_bind, Reporting.run_pure]
      rw [h₁, h₂]
      rfl

theorem run_coerceFields_of {structName : Name} {entries : List (String × Json)}
    {path : InputPath} {decls : List Field} (hnd : (decls.map Field.name).Nodup) :
    ∀ {fields : List (Name × CoercedValue)},
      fields.map Prod.fst = (presentFields decls entries).map Field.name →
      (∀ field v value, field ∈ decls → entries.lookup field.name.text = some v →
        (field.name, value) ∈ fields →
        ∀ path r, (c.coerceValue field.type v path).run r = (some value, r)) →
      (∀ field ∈ decls, entries.lookup field.name.text = none → field.type.isNonNull = false) →
      ∀ r, (c.coerceFields structName decls entries path).run r = (fields, r) := by
  induction decls with
  | nil =>
    intro fields hnames _ _ r
    have hnil : fields = [] := by simpa [presentFields] using hnames
    rw [hnil, coerceFields]
    rfl
  | cons field decls ih =>
    intro fields hnames heach hmissing r
    rw [List.map_cons, List.nodup_cons] at hnd
    have hrest : ∀ g ∈ decls, entries.lookup g.name.text = none → g.type.isNonNull = false :=
      fun g hg => hmissing g (List.mem_cons_of_mem _ hg)
    cases hl : entries.lookup field.name.text with
    | some v =>
      simp only [presentFields, List.filter_cons, hl, Option.isSome_some, if_true,
        List.map_cons] at hnames
      cases fields with
      | nil => cases hnames
      | cons p fields =>
        obtain ⟨name, value⟩ := p
        obtain ⟨rfl, htail⟩ := List.cons.inj hnames
        have h₁ := heach field v value List.mem_cons_self hl List.mem_cons_self
          (path.step (.field field.name)) r
        have h₂ := ih hnd.2 htail (fun g w x hg hw hx =>
          heach g w x (List.mem_cons_of_mem _ hg) hw (List.mem_cons_of_mem _ hx)) hrest r
        rw [coerceFields_some hl]
        simp only [Reporting.run_bind, Reporting.run_pure]
        rw [h₁, h₂]
        rfl
    | none =>
      simp only [presentFields, List.filter_cons, hl, Option.isSome_none, Bool.false_eq_true,
        if_false] at hnames
      rw [run_coerceFields_none hl]
      simp only [missingFaults, hmissing field List.mem_cons_self hl, Bool.false_eq_true, if_false,
        Report.pushAll_nil]
      exact ih hnd.2 hnames
        (fun g w x hg hw hx => heach g w x (List.mem_cons_of_mem _ hg) hw hx) hrest r

/-- **A value that stands for another one is coerced to it**, and nothing is reported. -/
theorem run_of_coerces (hs : c.schema.WellShaped) {type : TypeRef} {v : Json}
    {value : CoercedValue} (h : Coerces c type v value) :
    ∀ path r, (c.coerceValue type v path).run r = (some value, r) := by
  induction h with
  | null hn =>
    intro path r
    rw [coerceValue_null, hn]
    rfl
  | items hlen _ ih =>
    intro path r
    rw [coerceValue_array]
    simp only [Reporting.run_bind, Reporting.run_pure]
    rw [run_coerceItems_of hlen ih, mapM_id_map_some]
    rfl
  | single hv ha _ ih =>
    intro path r
    rw [coerceValue_single hv ha]
    simp only [Reporting.run_bind, Reporting.run_pure]
    rw [ih]
    rfl
  | scalar hv htype hleaf =>
    intro path r
    rw [coerceValue_named hv, coerceNamed, htype]
    dsimp only
    rw [hleaf]
    rfl
  | enum hv htype hleaf =>
    intro path r
    rw [coerceValue_named hv, coerceNamed, htype]
    dsimp only
    rw [hleaf]
    rfl
  | @struct name _ entries type fields htype ht hnames _ hmissing hk ih =>
    intro path r
    have hv : Json.object entries ≠ .null := nofun
    have hname : type.name = name := Schema.name_of_type? htype
    have hfields : (c.coerceFields type.name type.fields.toList entries path).run r = (fields, r) :=
      run_coerceFields_of type.fields.nodup hnames ih hmissing r
    rw [coerceValue_named hv, coerceNamed, htype]
    dsimp only
    rw [typenameFault?_eq_none_iff.2 ht]
    dsimp only
    rw [run_coerceStruct_eq, unknownFieldFaults_eq_nil_iff.2 hk, Report.pushAll_nil, hfields, hname]
    simp
  | @member name member _ entries union value htype hm hl _ ih =>
    intro path r
    have hv : Json.object entries ≠ .null := nofun
    obtain ⟨type, hstruct⟩ := hs.struct_of_member htype hm
    -- coercion at the member comes down to the same call
    have h := ih path r
    rw [coerceValue_named hv, coerceNamed, hstruct] at h
    dsimp only at h
    rw [typenameFault?_eq_none_iff.2 fun v hv => (Option.some.inj (hl.symm.trans hv)).symm] at h
    rw [coerceValue_named hv, coerceNamed, htype]
    dsimp only
    rw [discriminate_eq_ok_iff.2 ⟨member, hm, hl, hstruct⟩]
    exact h

theorem result_eq_ok_iff {α : Type} {step : Reporting (Option α)} {missing : Fault} {a : α} :
    step.result missing = .ok a ↔
      (step.run .empty).1 = some a ∧ (step.run .empty).2.faults = [] := by
  unfold Reporting.result
  obtain ⟨x, r⟩ := step.run .empty
  cases x <;> cases hr : r.faults <;> simp [hr]

/-- Coercion is exact as soon as the members of the struct unions are structs. -/
theorem coerce_ok_iff_coerces (hs : c.schema.WellShaped) (root : String) (type : TypeRef)
    (v : Json) (value : CoercedValue) :
    c.coerce root type v = .ok value ↔ Coerces c type v value := by
  unfold coerce
  rw [result_eq_ok_iff]
  constructor
  · rintro ⟨hvalue, -⟩
    exact (run_coerceValue type v _ _ fun f hf => by cases hf).value value hvalue
  · intro h
    rw [run_of_coerces hs h]
    exact ⟨rfl, rfl⟩

/-- **Coercion succeeds with the values that the relation gives**, over every valid schema, with
every configuration and every leaf coercion. -/
theorem coerce_eq_ok_iff (s : ValidSchema) (config : Config) (leaves : LeafCoercion)
    (root : String) (type : TypeRef) (v : Json) (value : CoercedValue) :
    coerce ⟨s.schema, config, leaves⟩ root type v = .ok value ↔
      Coerces ⟨s.schema, config, leaves⟩ type v value :=
  coerce_ok_iff_coerces s.wellShaped root type v value

end InputCoercer

end StructQL
