import StructQL.Proofs.Input.Exact

/-!
# Fields that no struct defines

Input values may have unknown fields, which are reported or dropped. Two runs are compared that
differ in this only. A struct that is refused for its unknown fields has its other fields coerced all
the same, so that both runs come to the same values.

* `InputCoercer.rejecting`: the same coercion, with unknown fields reported or dropped.
* `withoutUnknownFields`: the faults that are not of unknown fields.
* `valueFaults_dropping`: a value has these faults, whether unknown fields are reported or dropped.
* `coerce_dropping`: **reporting unknown fields adds faults, and nothing else.**
-/

namespace StructQL

/-- The faults that are not of unknown fields, in order. -/
def withoutUnknownFields (faults : List Fault) : List Fault :=
  faults.filter fun f => f.code ≠ .unknownInputField

theorem withoutUnknownFields_append (l m : List Fault) :
    withoutUnknownFields (l ++ m) = withoutUnknownFields l ++ withoutUnknownFields m :=
  List.filter_append l m

namespace InputCoercer

/-- **The same coercion**, with unknown fields reported or dropped. -/
def rejecting (c : InputCoercer) (reject : Bool) : InputCoercer :=
  { c with config := { c.config with rejectUnknownInputFields := reject } }

variable {c : InputCoercer} {path : InputPath}

/-! ## The faults of the same value -/

theorem leafFaults_dropping (result : Except String Json) :
    leafFaults path result = withoutUnknownFields (leafFaults path result) := by
  cases result <;> rfl

theorem missingFaults_dropping (structName : Name) (field : Field) :
    missingFaults structName field path =
      withoutUnknownFields (missingFaults structName field path) := by
  unfold missingFaults
  split <;> rfl

/-- Unknown fields that are dropped are no faults, and those that are reported are of no other
kind. -/
theorem unknownFieldFaults_dropping (type : StructType) (entries : List (String × Json)) :
    (c.rejecting false).unknownFieldFaults type entries path =
      withoutUnknownFields ((c.rejecting true).unknownFieldFaults type entries path) := by
  have hdropped : (c.rejecting false).unknownFieldFaults type entries path = [] := rfl
  rw [hdropped, eq_comm, withoutUnknownFields, List.filter_eq_nil_iff]
  intro f hf
  obtain ⟨-, e, -, -, -, rfl⟩ := mem_unknownFieldFaults.1 hf
  exact fun hkept => of_decide_eq_true hkept rfl

mutual

/-- **A value has the same faults**, but for those of unknown fields. -/
theorem valueFaults_dropping (type : TypeRef) (v : Json) (path : InputPath) :
    (c.rejecting false).valueFaults type v path =
      withoutUnknownFields ((c.rejecting true).valueFaults type v path) := by
  by_cases hv : v = .null
  · subst hv
    rw [valueFaults_null, valueFaults_null]
    split <;> rfl
  match type with
  | .named name nonNull =>
    rw [valueFaults_named hv, valueFaults_named hv]
    exact namedFaults_dropping name v path
  | .list item nonNull =>
    by_cases ha : ∃ items, v = .array items
    · obtain ⟨items, rfl⟩ := ha
      rw [valueFaults_array, valueFaults_array]
      exact itemsFaults_dropping item items path 0
    · have ha : ∀ items, v ≠ .array items := fun items e => ha ⟨items, e⟩
      rw [valueFaults_single hv ha, valueFaults_single hv ha]
      exact valueFaults_dropping item v path
termination_by (sizeOf v, sizeOf type, 0)

theorem itemsFaults_dropping (item : TypeRef) (items : List Json) (path : InputPath) (i : Nat) :
    (c.rejecting false).itemsFaults item items path i =
      withoutUnknownFields ((c.rejecting true).itemsFaults item items path i) := by
  match items with
  | [] =>
    rw [itemsFaults, itemsFaults]
    rfl
  | v :: rest =>
    rw [itemsFaults, itemsFaults, withoutUnknownFields_append,
      valueFaults_dropping item v (path.step (.index i)),
      itemsFaults_dropping item rest path (i + 1)]
termination_by (sizeOf items, 0, 0)

theorem namedFaults_dropping (name : Name) (v : Json) (path : InputPath) :
    (c.rejecting false).namedFaults name v path =
      withoutUnknownFields ((c.rejecting true).namedFaults name v path) := by
  -- both runs find the same type, and take the same struct for an object
  have hschema : (c.rejecting false).schema.type? name = (c.rejecting true).schema.type? name := rfl
  rw [namedFaults.eq_def, namedFaults.eq_def]
  dsimp only
  rw [hschema]
  match (c.rejecting true).schema.type? name with
  | some (.scalar _) => exact leafFaults_dropping _
  | some (.enum type) => exact leafFaults_dropping _
  | some (.struct type) =>
    match v with
    | .object entries =>
      dsimp only
      match ht : typenameFault? name entries path with
      | none => exact structFaults_dropping type entries path
      | some fault =>
        obtain ⟨_, -, -, rfl⟩ := typenameFault?_eq_some_iff.1 ht
        rfl
    | .null | .bool _ | .number _ | .string _ | .array _ => rfl
  | some (.structUnion union) =>
    match v with
    | .object entries =>
      dsimp only
      have hunion : (c.rejecting false).discriminate union entries path =
        (c.rejecting true).discriminate union entries path := rfl
      rw [hunion]
      match hd : (c.rejecting true).discriminate union entries path with
      | .ok type => exact structFaults_dropping type entries path
      | .error fault =>
        obtain ⟨-, rfl⟩ | ⟨_, -, -, -, rfl⟩ := discriminate_eq_error_iff.1 hd
        · rfl
        · rfl
    | .null | .bool _ | .number _ | .string _ | .array _ => rfl
  | some (.object _) | some (.interface _) | some (.union _) | some (.inputObject _)
  | none => rfl
termination_by (sizeOf v, 0, 1)

theorem structFaults_dropping (type : StructType) (entries : List (String × Json))
    (path : InputPath) :
    (c.rejecting false).structFaults type entries path =
      withoutUnknownFields ((c.rejecting true).structFaults type entries path) := by
  rw [structFaults, structFaults, withoutUnknownFields_append, unknownFieldFaults_dropping type entries,
    fieldsFaults_dropping type.name type.fields.toList entries path]
termination_by (sizeOf entries, 1, 0)

theorem fieldsFaults_dropping (structName : Name) (fields : List Field)
    (entries : List (String × Json)) (path : InputPath) :
    (c.rejecting false).fieldsFaults structName fields entries path =
      withoutUnknownFields ((c.rejecting true).fieldsFaults structName fields entries path) := by
  match fields with
  | [] =>
    rw [fieldsFaults, fieldsFaults]
    rfl
  | field :: rest =>
    have hrest := fieldsFaults_dropping structName rest entries path
    match hl : entries.lookup field.name.text with
    | some v =>
      have hvalue := valueFaults_dropping field.type v (path.step (.field field.name))
      rw [fieldsFaults_some hl, fieldsFaults_some hl, withoutUnknownFields_append, hvalue, hrest]
    | none =>
      rw [fieldsFaults_none hl, fieldsFaults_none hl, withoutUnknownFields_append,
        ← missingFaults_dropping, hrest]
termination_by (sizeOf entries, 0, fields.length)
decreasing_by
  · exact .right _ (.right _ (Nat.lt_succ_self _))
  · exact .left _ _ (Pairs.sizeOf_lookup_lt hl)

end

/-! ## The same value -/

/-- What a value stands for when unknown fields are reported, it stands for when they are
dropped. -/
theorem Coerces.dropping {type : TypeRef} {v : Json} {value : CoercedValue}
    (h : Coerces (c.rejecting true) type v value) :
    Coerces (c.rejecting false) type v value := by
  induction h with
  | null hn => exact .null hn
  | items hlen _ ih => exact .items hlen ih
  | single hv ha _ ih => exact .single hv ha ih
  | scalar hv htype hleaf => exact .scalar hv htype hleaf
  | enum hv htype hleaf => exact .enum hv htype hleaf
  | struct htype ht hnames _ hmissing _ ih => exact .struct htype ht hnames ih hmissing nofun
  | member htype hm hl _ ih => exact .member htype hm hl ih

/-- **Reporting unknown fields adds faults, and nothing else.** What is coerced while they are
reported is coerced to the same value when they are dropped. The faults are then the others, in the
same order, and there is a value just if nothing but unknown fields was reported. -/
theorem coerce_dropping (s : ValidSchema) (config : Config) (leaves : LeafCoercion) (root : String)
    (type : TypeRef) (v : Json) :
    let c : InputCoercer := ⟨s.schema, config, leaves⟩
    (∀ value, (c.rejecting true).coerce root type v = .ok value →
        (c.rejecting false).coerce root type v = .ok value) ∧
      faultsOf ((c.rejecting false).coerce root type v) =
        withoutUnknownFields (faultsOf ((c.rejecting true).coerce root type v)) ∧
      ((∃ value, (c.rejecting false).coerce root type v = .ok value) ↔
        ∀ f ∈ faultsOf ((c.rejecting true).coerce root type v), f.code = .unknownInputField) := by
  intro c
  have hshaped : s.schema.WellShaped := s.wellShaped
  refine ⟨fun value h => ?_, ?_, ?_⟩
  · have hstrict : Coerces (c.rejecting true) type v value :=
      (coerce_ok_iff_coerces hshaped root type v value).1 h
    exact (coerce_ok_iff_coerces hshaped root type v value).2 hstrict.dropping
  · rw [faultsOf_coerce, faultsOf_coerce, valueFaults_dropping]
    exact Report.faults_ofList_filter _ _
  · rw [exists_coerce_iff, faultsOf_coerce, valueFaults_dropping, withoutUnknownFields,
      List.filter_eq_nil_iff]
    simp only [Report.mem_ofList]
    refine forall₂_congr fun f _ => ?_
    rw [decide_eq_true_iff, not_not]

end InputCoercer

end StructQL
