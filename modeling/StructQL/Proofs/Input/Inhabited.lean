import StructQL.Proofs.Input.Exact
import StructQL.Proofs.Schema.LeastFixedPoint
import StructQL.Proofs.Schema.UnbreakableCycle

/-!
# The structs of which an input can be a value

* `InputCoercer.AcceptsLeaves`: each scalar and each enum has a value.
* `exists_of_mem_instantiable`: a type in the set of `Schema.instantiable` has a value.
* `mem_instantiable_of_coerces`: a type that has a value is in the set.
* `cycle_reported_iff_no_value`: a cycle is reported for the structs without any value.
-/

namespace StructQL

namespace InputCoercer

variable {c : InputCoercer} {name : Name}

/-- **Each scalar and each enum takes some value** that is not null. -/
structure AcceptsLeaves (c : InputCoercer) : Prop where
  scalar : ∀ name n, c.schema.type? name = some (.scalar n) →
    ∃ v leaf, v ≠ Json.null ∧ c.leaves.scalar name v = .ok leaf
  enum : ∀ name type, c.schema.type? name = some (.enum type) →
    ∃ v leaf, v ≠ Json.null ∧ c.leaves.enum type v = .ok leaf

/-! ## From the set to a value -/

/-- An object is a value of the type. It says of which struct, so that it can stand for a value
of a union. -/
def HasObject (c : InputCoercer) (name : Name) : Prop :=
  ∃ entries value, Coerces c (.named name true) (.object entries) value ∧
    ∀ type, c.schema.type? name = some (.struct type) →
      entries.lookup Name.typename.text = some (.string name.text)

theorem FieldsCoerce.congr {decls : List Field} {entries more : List (String × Json)}
    {fields : List (Name × CoercedValue)} (h : FieldsCoerce c decls entries fields)
    (hl : ∀ field ∈ decls, more.lookup field.name.text = entries.lookup field.name.text) :
    FieldsCoerce c decls more fields := by
  refine ⟨?_, fun field v value hf hv => ?_, fun field hf hv => ?_⟩
  · have hpresent : presentFields decls more = presentFields decls entries := by
      apply List.filter_congr
      intro field hf
      rw [hl field hf]
    rw [hpresent]
    exact h.names
  · rw [hl field hf] at hv
    exact h.each field v value hf hv
  · rw [hl field hf] at hv
    exact h.missing field hf hv

theorem lookup_cons_of_ne {key other : String} {v : Json} {entries : List (String × Json)}
    (h : key ≠ other) : ((other, v) :: entries).lookup key = entries.lookup key := by
  rw [List.lookup_cons, beq_eq_false_iff_ne.2 h]

/-- An object with a value for each field that must not be null, and without the others. -/
theorem exists_fieldsCoerce {decls : List Field} (hnd : (decls.map Field.name).Nodup)
    (h : ∀ field ∈ decls, field.type.isNonNull = true → ∃ v value, Coerces c field.type v value) :
    ∃ entries fields, FieldsCoerce c decls entries fields ∧
      ∀ e ∈ entries, ∃ field ∈ decls, field.name.text = e.1 := by
  induction decls with
  | nil => exact ⟨[], [], .nil, by simp⟩
  | cons field rest ih =>
    rw [List.map_cons, List.nodup_cons] at hnd
    obtain ⟨entries, fields, hfields, hkeys⟩ :=
      ih hnd.2 fun g hg => h g (List.mem_cons_of_mem _ hg)
    have hother : ∀ g ∈ rest, g.name.text ≠ field.name.text := fun g hg he =>
      hnd.1 (List.mem_map.2 ⟨g, hg, Name.ext_text he⟩)
    by_cases hn : field.type.isNonNull = true
    · obtain ⟨v, value, hv⟩ := h field List.mem_cons_self hn
      refine ⟨(field.name.text, v) :: entries, (field.name, value) :: fields, ?_, ?_⟩
      · exact .cons List.lookup_cons_self hv hnd.1
          (hfields.congr fun g hg => lookup_cons_of_ne (hother g hg))
      · intro e he
        rcases List.mem_cons.1 he with rfl | he
        · exact ⟨field, List.mem_cons_self, rfl⟩
        · obtain ⟨g, hg, hk⟩ := hkeys e he
          exact ⟨g, List.mem_cons_of_mem _ hg, hk⟩
    · refine ⟨entries, fields, .skip ?_ (by simpa using hn) hfields, ?_⟩
      · rw [List.lookup_eq_none_iff]
        intro e he
        obtain ⟨g, hg, hk⟩ := hkeys e he
        simpa [← hk] using (hother g hg).symm
      · intro e he
        obtain ⟨g, hg, hk⟩ := hkeys e he
        exact ⟨g, List.mem_cons_of_mem _ hg, hk⟩

/-- A struct has a value if the fields that must not be null have one. -/
theorem hasObject_of_fields {type : StructType} (htype : c.schema.type? name = some (.struct type))
    (hreserved : ∀ field ∈ type.fields.toList, field.name ≠ Name.typename)
    (h : ∀ field ∈ type.fields.toList, field.type.isNonNull = true →
      ∃ v value, Coerces c field.type v value) : HasObject c name := by
  obtain ⟨entries, fields, hfields, hkeys⟩ := exists_fieldsCoerce type.fields.nodup h
  have hnamed : ((Name.typename.text, Json.string name.text) :: entries).lookup
      Name.typename.text = some (.string name.text) := List.lookup_cons_self
  -- the discriminator is in the way of no field
  have hcoerced : FieldsCoerce c type.fields.toList
      ((Name.typename.text, Json.string name.text) :: entries) fields :=
    hfields.congr fun field hf =>
      lookup_cons_of_ne fun he => hreserved field hf (Name.ext_text he)
  refine ⟨_, .struct name fields, .struct htype (fun v hv => ?_) hcoerced.names hcoerced.each
    hcoerced.missing fun _ => ?_, fun _ _ => hnamed⟩
  · rw [hnamed] at hv
    exact (Option.some.inj hv).symm
  · intro e he
    rcases List.mem_cons.1 he with rfl | he
    · exact .inl rfl
    · exact .inr (hkeys e he)

/-- A field that must not be null has a value, if the structs that its struct is forced to have one. -/
theorem exists_coerces_of_field (hs : c.schema.WellShaped) (hleaves : c.AcceptsLeaves)
    {type : StructType} {field : Field} (htype : c.schema.type? name = some (.struct type))
    (hcan : c.schema.CanBuild {n | HasObject c n} (.struct type))
    (hf : field ∈ type.fields.toList) (hn : field.type.isNonNull = true) :
    ∃ v value, Coerces c field.type v value := by
  obtain ⟨kind, hk, hallowed⟩ := hs.kind_of_field htype hf
  match hfield : field.type with
  -- an empty list needs no value of its items
  | .list item nonNull => exact ⟨.array [], .list [], .items rfl (by simp)⟩
  | .named n nonNull =>
    rw [hfield] at hn hk
    obtain rfl : nonNull = true := hn
    obtain ⟨fieldType, hfieldType, rfl⟩ := Option.map_eq_some_iff.1 hk
    cases fieldType with
    | scalar m =>
      obtain ⟨v, leaf, hv, hleaf⟩ := hleaves.scalar n m hfieldType
      exact ⟨v, .leaf leaf, .scalar hv hfieldType hleaf⟩
    | enum m =>
      obtain ⟨v, leaf, hv, hleaf⟩ := hleaves.enum n m hfieldType
      exact ⟨v, .leaf leaf, .enum hv hfieldType hleaf⟩
    | object | interface | union | inputObject => cases hallowed
    | struct | structUnion =>
      -- the field is neither nullable nor a list, so that the struct needs a value of its type
      have hlike : c.schema.isStructLike n = true :=
        Schema.isStructLike_eq_true_iff.2 ⟨_, hfieldType, rfl⟩
      obtain ⟨entries, value, hv, -⟩ := hcan field hf n hfield hlike
      exact ⟨.object entries, value, hv⟩

/-- A value of a member is a value of the struct union. -/
theorem hasObject_of_member (hs : c.schema.WellShaped) {union : UnionType} {member : Name}
    (htype : c.schema.type? name = some (.structUnion union)) (hm : member ∈ union.members)
    (h : HasObject c member) : HasObject c name := by
  obtain ⟨entries, value, hv, hnamed⟩ := h
  obtain ⟨struct, hstruct⟩ := hs.struct_of_member htype hm
  refine ⟨entries, value, .member htype hm (hnamed struct hstruct) hv, fun type htype' => ?_⟩
  rw [htype] at htype'
  cases htype'

/-- **A type has a value** if one can be built from types that have one. -/
theorem hasObject_of_canBuild (hs : c.schema.WellShaped)
    (hreserved : ∀ type ∈ c.schema.structs, ∀ field ∈ type.fields.toList,
      field.name ≠ Name.typename)
    (hleaves : c.AcceptsLeaves) {type : TypeDefinition} (htype : c.schema.type? name = some type)
    (hcan : c.schema.CanBuild {n | HasObject c n} type) : HasObject c name := by
  cases type with
  | struct type =>
    refine hasObject_of_fields htype (hreserved type (Schema.mem_structs htype)) ?_
    exact fun field hf hn => exists_coerces_of_field hs hleaves htype hcan hf hn
  | structUnion union =>
    rcases hcan with hnone | ⟨member, hm, -, hmember⟩
    · -- a union without structs would count as buildable, but there is none
      obtain ⟨first, hfirst⟩ := List.exists_mem_of_ne_nil _ (hs.members_ne_nil htype)
      obtain ⟨firstType, hfirstType⟩ := hs.struct_of_member htype hfirst
      have hlike : c.schema.isStructLike first = true :=
        Schema.isStructLike_eq_true_iff.2 ⟨_, hfirstType, rfl⟩
      rw [hnone first hfirst] at hlike
      cases hlike
    · exact hasObject_of_member hs htype hm hmember
  | _ => exact hcan.elim

/-- **A type in the set has a value**: the types with a value are closed, and the set is the least
that is. -/
theorem exists_of_mem_instantiable (hs : c.schema.WellShaped)
    (hreserved : ∀ type ∈ c.schema.structs, ∀ field ∈ type.fields.toList,
      field.name ≠ Name.typename)
    (hleaves : c.AcceptsLeaves) : ∀ name ∈ c.schema.instantiable, HasObject c name := by
  have hclosed : c.schema.IsClosed {n | HasObject c n} := fun name type htype hcan =>
    hasObject_of_canBuild hs hreserved hleaves htype hcan
  exact Schema.isLeast_instantiable.2 hclosed

/-! ## From a value to the set -/

/-- **A type that has a value is in the set.** -/
theorem mem_instantiable_of_coerces (hs : c.schema.WellShaped) {type : TypeRef} {v : Json}
    {value : CoercedValue} (h : Coerces c type v value) :
    ∀ name, type = .named name true → c.schema.isStructLike name = true →
      name ∈ c.schema.instantiable := by
  induction h with
  | null hn =>
    rintro name rfl
    cases hn
  | items => intro name he; cases he
  | single => intro name he; cases he
  | scalar _ htype _ =>
    rintro name he hlike
    cases he
    rw [Schema.isStructLike, Schema.kind?, htype] at hlike
    cases hlike
  | enum _ htype _ =>
    rintro name he hlike
    cases he
    rw [Schema.isStructLike, Schema.kind?, htype] at hlike
    cases hlike
  | @struct _ _ entries type fields htype _ hnames _ hmissing _ ih =>
    rintro name he -
    cases he
    refine Schema.isClosed_instantiable _ (.struct type) htype ?_
    intro field hf n hfield hlike
    -- the field is not null, so that the object has it
    cases hl : entries.lookup field.name.text with
    | none =>
      have := hmissing field hf hl
      rw [hfield] at this
      cases this
    | some v =>
      have hname : field.name ∈ fields.map Prod.fst := by
        rw [name_mem_iff_given hnames hf, hl]
        rfl
      obtain ⟨⟨fieldName, value⟩, hvalue, rfl⟩ := List.mem_map.1 hname
      exact ih field v value hf hl hvalue n hfield hlike
  | @member _ member _ entries union value htype hm hl hv ih =>
    rintro name he -
    cases he
    obtain ⟨struct, hstruct⟩ := hs.struct_of_member htype hm
    have hlike : c.schema.isStructLike member = true :=
      Schema.isStructLike_eq_true_iff.2 ⟨_, hstruct, rfl⟩
    exact Schema.isClosed_instantiable _ (.structUnion union) htype
      (.inr ⟨member, hm, hlike, ih member rfl hlike⟩)

/-- **A cycle is reported for the structs without any value**, and only for them, as long as no
struct declares the reserved field. -/
theorem cycle_reported_iff_no_value (s : Schema) (config : Config) (leaves : LeafCoercion)
    (hs : s.WellShaped)
    (hreserved : ∀ type ∈ s.structs, ∀ field ∈ type.fields.toList, field.name ≠ Name.typename)
    (hleaves : AcceptsLeaves ⟨s, config, leaves⟩) (root : String) (type : StructType)
    (htype : type ∈ s.structs) :
    (∃ path, Fault.cycle type.name path ∈ s.cycleFaults) ↔
      ¬ ∃ v value, coerce ⟨s, config, leaves⟩ root (.named type.name true) v = .ok value := by
  have hfound : s.type? type.name = some (.struct type) := Schema.type?_of_mem_structs htype
  rw [Schema.cycle_mem_cycleFaults_iff hfound, not_iff_not]
  constructor
  · intro hmem
    obtain ⟨entries, value, hv, -⟩ :=
      exists_of_mem_instantiable (c := ⟨s, config, leaves⟩) hs hreserved hleaves type.name hmem
    exact ⟨.object entries, value, (coerce_ok_iff_coerces hs root _ _ value).2 hv⟩
  · rintro ⟨v, value, hv⟩
    exact mem_instantiable_of_coerces hs ((coerce_ok_iff_coerces hs root _ v value).1 hv)
      type.name rfl (Schema.isStructLike_eq_true_iff.2 ⟨_, hfound, rfl⟩)

/-- Two structs that need each other. -/
def mutualStructs : Schema where
  types := ⟨[.scalar Name.string,
    .struct ⟨⟨"Hen", .refl true⟩, ⟨[⟨⟨"egg", .refl true⟩, .named ⟨"Egg", .refl true⟩ true, []⟩],
      by decide⟩⟩,
    .struct ⟨⟨"Egg", .refl true⟩, ⟨[⟨⟨"hen", .refl true⟩, .named ⟨"Hen", .refl true⟩ true, []⟩,
      ⟨⟨"shell", .refl true⟩, .named Name.string true, []⟩], by decide⟩⟩], by decide⟩
  directives := .empty
  roots := .standard

theorem acceptsLeaves_mutualStructs : AcceptsLeaves ⟨mutualStructs, {}, .builtIn⟩ := by
  refine ⟨fun name n h => ?_, fun name type h => ?_⟩
  · refine ⟨.string "", .string "", nofun, ?_⟩
    have hmem := Schema.mem_of_type? h
    have hname : n = name := Schema.name_of_type? h
    simp [mutualStructs] at hmem
    rw [← hname, hmem]
    rfl
  · have hmem := Schema.mem_of_type? h
    simp [mutualStructs] at hmem

/-- Neither of two structs that need each other has a value. -/
theorem no_value_of_mutual_structs :
    ¬ ∃ v value, coerce ⟨mutualStructs, {}, .builtIn⟩ "input" (.named ⟨"Hen", by decide⟩ true) v =
      .ok value :=
  (cycle_reported_iff_no_value mutualStructs {} .builtIn
    ⟨by decide +kernel, by decide +kernel⟩ (by decide +kernel) acceptsLeaves_mutualStructs
    "input" _ List.mem_cons_self).1 ⟨"Hen.egg -> Egg.hen -> Hen", by decide +kernel⟩

end InputCoercer

end StructQL
