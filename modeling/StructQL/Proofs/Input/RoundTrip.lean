import StructQL.Proofs.Input.Exact
import StructQL.Proofs.Pairs

/-!
# Coerced values are accepted again

The JSON of a coerced value names each struct under `__typename`. A struct that declares a field
of this very name writes the value of the field in its place.

* `LeafCoercion.Stable`: a leaf that was accepted is accepted again, unchanged.
* `Discriminated`: each struct of a value that declares `__typename` has its own name there.
* `coerces_toJson`: the JSON of such a value stands for the value.
* `coerce_toJson_iff`: **the JSON of a coerced value is coerced to the value again just if the
  value is discriminated.**
-/

namespace StructQL

/-! ## The JSON of a value -/

namespace CoercedValue

theorem itemsToJson_eq_map (items : List CoercedValue) : itemsToJson items = items.map toJson := by
  induction items with
  | nil => rw [itemsToJson, List.map_nil]
  | cons v rest ih => rw [itemsToJson, ih, List.map_cons]

theorem fieldsToJson_eq_map (fields : List (Name × CoercedValue)) :
    fieldsToJson fields = fields.map fun p => (p.1.text, p.2.toJson) := by
  induction fields with
  | nil => rw [fieldsToJson, List.map_nil]
  | cons p rest ih => rw [fieldsToJson, ih, List.map_cons]

/-- The entries of the JSON of a struct. -/
def entries (name : Name) (fields : List (Name × CoercedValue)) : List (String × Json) :=
  Pairs.ofList ((Name.typename.text, .string name.text) :: fieldsToJson fields)

theorem toJson_list (items : List CoercedValue) :
    (list items).toJson = .array (items.map toJson) := by
  rw [toJson, itemsToJson_eq_map]

theorem toJson_struct (name : Name) (fields : List (Name × CoercedValue)) :
    (struct name fields).toJson = .object (entries name fields) := by
  rw [toJson, entries]

variable {name : Name} {fields : List (Name × CoercedValue)}

theorem lookup_entries (key : String) :
    (entries name fields).lookup key =
      ((fieldsToJson fields).reverse.lookup key).or
        (if key = Name.typename.text then some (.string name.text) else none) := by
  rw [entries, Pairs.lookup_ofList, List.reverse_cons, List.lookup_append]
  congr 1
  rw [List.lookup_cons]
  by_cases h : key = Name.typename.text
  · simp [h]
  · rw [beq_eq_false_iff_ne.2 h, if_neg h, List.lookup_nil]

theorem map_fst_fieldsToJson (fields : List (Name × CoercedValue)) :
    (fieldsToJson fields).map Prod.fst = (fields.map Prod.fst).map Name.text := by
  rw [fieldsToJson_eq_map, List.map_map, List.map_map]
  rfl

theorem nodup_fieldsToJson (hnd : (fields.map Prod.fst).Nodup) :
    ((fieldsToJson fields).map Prod.fst).Nodup := by
  rw [map_fst_fieldsToJson]
  exact hnd.map fun _ _ he => Name.ext_text he

/-- The keys are `__typename` and the names of the fields, in their order. -/
theorem map_fst_entries (hnd : (fields.map Prod.fst).Nodup) :
    (entries name fields).map Prod.fst = Name.typename.text ::
      ((fields.map Prod.fst).filter fun field => field ≠ Name.typename).map Name.text := by
  have htext : ∀ field : Name, decide (field.text ≠ Name.typename.text) =
      decide (field ≠ Name.typename) := fun field =>
    decide_eq_decide.2 (not_congr ⟨Name.ext_text, congrArg Name.text⟩)
  rw [entries, Pairs.map_fst_ofList_cons (nodup_fieldsToJson hnd), map_fst_fieldsToJson,
    List.filter_map]
  simp only [Function.comp_def, htext]

/-- A field is found under its name. -/
theorem lookup_entries_of_mem (hnd : (fields.map Prod.fst).Nodup) {field : Name}
    {value : CoercedValue} (h : (field, value) ∈ fields) :
    (entries name fields).lookup field.text = some value.toJson := by
  have hmem : (field.text, value.toJson) ∈ (fieldsToJson fields).reverse := by
    rw [List.mem_reverse, fieldsToJson_eq_map]
    exact List.mem_map.2 ⟨_, h, rfl⟩
  have hnodup : ((fieldsToJson fields).reverse.map Prod.fst).Nodup := by
    rw [List.map_reverse, List.nodup_reverse]
    exact nodup_fieldsToJson hnd
  rw [lookup_entries, Pairs.lookup_of_mem hnodup hmem]
  rfl

/-- What is no field is found under `__typename` only. -/
theorem lookup_entries_of_not_mem {field : Name} (h : field ∉ fields.map Prod.fst) :
    (entries name fields).lookup field.text =
      if field = Name.typename then some (.string name.text) else none := by
  have hnone : (fieldsToJson fields).reverse.lookup field.text = none := by
    rw [List.lookup_eq_none_iff]
    intro p hp
    rw [List.mem_reverse, fieldsToJson_eq_map] at hp
    obtain ⟨q, hq, rfl⟩ := List.mem_map.1 hp
    rw [bne_iff_ne]
    intro he
    exact h (List.mem_map.2 ⟨q, hq, (Name.ext_text he).symm⟩)
  rw [lookup_entries, hnone, Option.none_or]
  by_cases he : field = Name.typename
  · simp [he]
  · rw [if_neg he, if_neg fun ht => he (Name.ext_text ht)]

theorem mem_entries {e : String × Json} (h : e ∈ entries name fields) :
    e.1 = Name.typename.text ∨ ∃ p ∈ fields, p.1.text = e.1 := by
  rcases List.mem_cons.1 (Pairs.mem_ofList h) with rfl | h
  · exact .inl rfl
  · rw [fieldsToJson_eq_map] at h
    obtain ⟨p, hp, rfl⟩ := List.mem_map.1 h
    exact .inr ⟨p, hp, rfl⟩

end CoercedValue

/-! ## Leaves -/

/-- **A leaf that was accepted is accepted again**, unchanged. -/
structure LeafCoercion.Stable (leaves : LeafCoercion) : Prop where
  scalar : ∀ name v leaf, v ≠ .null → leaves.scalar name v = .ok leaf →
    leaf ≠ .null ∧ leaves.scalar name leaf = .ok leaf
  enum : ∀ type v leaf, v ≠ .null → leaves.enum type v = .ok leaf →
    leaf ≠ .null ∧ leaves.enum type leaf = .ok leaf

namespace LeafCoercion

theorem eq_of_coerceInt {v leaf : Json} (h : coerceInt v = .ok leaf) : leaf = v := by
  unfold coerceInt at h
  split at h
  · split at h
    · split at h <;> cases h
      rfl
    · cases h
  · cases h

theorem exists_string_of_coerceID {v leaf : Json} (h : coerceID v = .ok leaf) :
    ∃ s, leaf = .string s := by
  unfold coerceID at h
  split at h
  · cases h
    exact ⟨_, rfl⟩
  · split at h <;> cases h
    exact ⟨_, rfl⟩
  · cases h

/-- Every scalar but `ID` keeps its value, and an `ID` becomes a string. -/
theorem eq_of_coerceScalar {name : Name} {v leaf : Json} (h : coerceScalar name v = .ok leaf) :
    leaf = v ∨ name.text = "ID" ∧ ∃ s, leaf = .string s := by
  unfold coerceScalar at h
  split_ifs at h with _ _ _ _ hid
  · exact .inl (eq_of_coerceInt h)
  · cases v <;> cases h
    exact .inl rfl
  · cases v <;> cases h
    exact .inl rfl
  · cases v <;> cases h
    exact .inl rfl
  · exact .inr ⟨hid, exists_string_of_coerceID h⟩
  · cases h
    exact .inl rfl

theorem eq_of_coerceEnum {type : EnumType} {v leaf : Json} (h : coerceEnum type v = .ok leaf) :
    leaf = v := by
  unfold coerceEnum at h
  dsimp only at h
  split at h
  · split at h <;> cases h
    rfl
  · cases h

/-- **The built-in rules accept their own leaves.** -/
theorem stable_builtIn : builtIn.Stable := by
  refine ⟨fun name v leaf hv h => ?_, fun type v leaf hv h => ?_⟩
  · rcases eq_of_coerceScalar h with rfl | ⟨hid, s, rfl⟩
    · exact ⟨hv, h⟩
    · refine ⟨nofun, ?_⟩
      change coerceScalar name (.string s) = _
      simp [coerceScalar, hid, coerceID]
  · obtain rfl := eq_of_coerceEnum h
    exact ⟨hv, h⟩

end LeafCoercion

/-! ## From a value to its JSON and back -/

/-- **Each struct of a value that declares `__typename` has its own name there.** -/
inductive Discriminated (s : Schema) : CoercedValue → Prop where
  | null : Discriminated s .null
  | leaf {v : Json} : Discriminated s (.leaf v)
  | list {items : List CoercedValue} : (∀ v ∈ items, Discriminated s v) →
    Discriminated s (.list items)
  | struct {name : Name} {fields : List (Name × CoercedValue)} :
    (∀ field value, (field, value) ∈ fields → Discriminated s value) →
    (∀ type, s.type? name = some (.struct type) → type.fields.contains Name.typename = true →
      (Name.typename, .leaf (.string name.text)) ∈ fields) →
    Discriminated s (.struct name fields)

/-- Where no struct declares `__typename`, every value is discriminated. -/
theorem discriminated_of_not_declared {s : Schema}
    (h : ∀ type ∈ s.structs, type.fields.contains Name.typename = false)
    (value : CoercedValue) : Discriminated s value := by
  match value with
  | .null => exact .null
  | .leaf _ => exact .leaf
  | .list items =>
    exact .list fun v _ => discriminated_of_not_declared h v
  | .struct name fields =>
    refine .struct (fun field v _ => discriminated_of_not_declared h v) fun type htype hc => ?_
    have hnot := h type (Schema.mem_structs htype)
    rw [hc] at hnot
    cases hnot
termination_by sizeOf value
decreasing_by
  · have := List.sizeOf_lt_of_mem ‹v ∈ items›
    simp only [CoercedValue.list.sizeOf_spec]
    omega
  · have := List.sizeOf_lt_of_mem ‹(field, v) ∈ fields›
    simp only [CoercedValue.struct.sizeOf_spec, Prod.mk.sizeOf_spec] at this ⊢
    omega

namespace InputCoercer

variable {c : InputCoercer} {type : TypeRef} {v : Json} {value : CoercedValue}

open CoercedValue

/-- A struct has values for fields that it declares, each for one. -/
structure OfStruct (type : StructType) (fields : List (Name × CoercedValue)) : Prop where
  nodup : (fields.map Prod.fst).Nodup
  declared : ∀ name ∈ fields.map Prod.fst, name ∈ type.fields.names

theorem ofStruct_of_presentFields {type : StructType} {entries : List (String × Json)}
    {fields : List (Name × CoercedValue)}
    (h : fields.map Prod.fst = (presentFields type.fields.toList entries).map Field.name) :
    OfStruct type fields := by
  have hsub : ((presentFields type.fields.toList entries).map Field.name).Sublist
      type.fields.names := List.filter_sublist.map _
  rw [← h] at hsub
  exact ⟨type.fields.nodup.sublist hsub, fun name hn => hsub.subset hn⟩

variable {name : Name} {struct : StructType} {fields : List (Name × CoercedValue)}

/-- **The JSON of a discriminated struct names the struct.** -/
theorem lookup_typename_entries (htype : c.schema.type? name = some (.struct struct))
    (hof : OfStruct struct fields) (hd : Discriminated c.schema (.struct name fields)) :
    (entries name fields).lookup Name.typename.text = some (.string name.text) := by
  cases hd with
  | struct _ htypename =>
    by_cases hm : Name.typename ∈ fields.map Prod.fst
    · have hcontains : struct.fields.contains Name.typename = true := by
        simpa [Table.contains] using hof.declared _ hm
      exact lookup_entries_of_mem hof.nodup (htypename struct htype hcontains)
    · rw [lookup_entries_of_not_mem hm, if_pos rfl]

/-- The JSON of a discriminated struct has the fields of the struct, and no others. -/
theorem isSome_lookup_entries (htype : c.schema.type? name = some (.struct struct))
    (hof : OfStruct struct fields) (hd : Discriminated c.schema (.struct name fields))
    {field : Name} (hfield : field ∈ struct.fields.names) :
    ((entries name fields).lookup field.text).isSome = true ↔ field ∈ fields.map Prod.fst := by
  by_cases hm : field ∈ fields.map Prod.fst
  · obtain ⟨⟨_, value⟩, hvalue, rfl⟩ := List.mem_map.1 hm
    rw [lookup_entries_of_mem hof.nodup hvalue]
    exact iff_of_true rfl hm
  · refine iff_of_false ?_ hm
    rw [lookup_entries_of_not_mem hm]
    -- the name of the struct stands only where the struct declares no field
    have hne : field ≠ Name.typename := by
      rintro rfl
      cases hd with
      | struct _ htypename =>
        have hcontains : struct.fields.contains Name.typename = true := by
          simpa [Table.contains] using hfield
        exact hm (List.mem_map.2 ⟨_, htypename struct htype hcontains, rfl⟩)
    rw [if_neg hne]
    simp

/-- **The JSON of a discriminated struct stands for the struct**, if the JSON of each of its
fields stands for the field. -/
theorem coerces_entries {given : List (String × Json)} {nonNull : Bool}
    (htype : c.schema.type? name = some (.struct struct))
    (hnames : fields.map Prod.fst = (presentFields struct.fields.toList given).map Field.name)
    (hmissing : ∀ field ∈ struct.fields.toList, given.lookup field.name.text = none →
      field.type.isNonNull = false)
    (hd : Discriminated c.schema (.struct name fields))
    (heach : ∀ field ∈ struct.fields.toList, ∀ value, (field.name, value) ∈ fields →
      Coerces c field.type value.toJson value) :
    Coerces c (.named name nonNull) (.object (entries name fields)) (.struct name fields) := by
  have hof : OfStruct struct fields := ofStruct_of_presentFields hnames
  have hsame : ∀ field ∈ struct.fields.toList,
      ((entries name fields).lookup field.name.text).isSome =
        (given.lookup field.name.text).isSome := by
    intro field hf
    rw [Bool.eq_iff_iff, ← name_mem_iff_given hnames hf]
    exact isSome_lookup_entries htype hof hd (List.mem_map_of_mem hf)
  refine .struct htype ?_ ?_ ?_ ?_ ?_
  · intro v hv
    rw [lookup_typename_entries htype hof hd] at hv
    exact (Option.some.inj hv).symm
  · rw [hnames]
    exact congrArg _ (List.filter_congr fun field hf => (hsame field hf).symm)
  · intro field v value hf hv hvalue
    rw [lookup_entries_of_mem hof.nodup hvalue] at hv
    cases hv
    exact heach field hf value hvalue
  · intro field hf hl
    apply hmissing field hf
    have hnone := hsame field hf
    rw [hl] at hnone
    exact Option.isNone_iff_eq_none.1 (by simpa using hnone.symm)
  · intro _ e he
    rcases mem_entries he with ht | ⟨p, hp, ht⟩
    · exact .inl ht
    · obtain ⟨field, hf, hname⟩ := List.mem_map.1 (hof.declared p.1 (List.mem_map_of_mem hp))
      exact .inr ⟨field, hf, by rw [← ht, ← hname]; rfl⟩

/-- The JSON of a list stands for the list, if the JSON of each item stands for the item. -/
theorem coerces_list {item : TypeRef} {nonNull : Bool} {values : List CoercedValue}
    (h : ∀ x ∈ values, Coerces c item x.toJson x) :
    Coerces c (.list item nonNull) (CoercedValue.list values).toJson (.list values) := by
  rw [toJson_list]
  refine .items (by simp) ?_
  intro i w x hw hx
  rw [List.getElem?_map, hx] at hw
  cases hw
  exact h x (List.mem_of_getElem? hx)

/-- What is coerced at a struct, and is not null, is a struct of this name. -/
theorem Coerces.exists_struct (h : Coerces c (.named name true) v value)
    (htype : c.schema.type? name = some (.struct struct)) :
    ∃ fields, value = .struct name fields ∧ OfStruct struct fields := by
  cases h with
  | null hn => cases hn
  | scalar _ hscalar _ => rw [htype] at hscalar; cases hscalar
  | enum _ henum _ => rw [htype] at henum; cases henum
  | member hunion _ _ _ => rw [htype] at hunion; cases hunion
  | @struct _ _ _ _ fields hsame _ hnames _ _ _ =>
    obtain ⟨rfl⟩ : struct = _ := by simpa [htype] using hsame
    exact ⟨fields, rfl, ofStruct_of_presentFields hnames⟩

/-- **The JSON of a discriminated value stands for the value**, wherever it came from. -/
theorem coerces_toJson (hs : c.schema.WellShaped) (hleaves : c.leaves.Stable)
    (h : Coerces c type v value) :
    Discriminated c.schema value → Coerces c type value.toJson value := by
  induction h with
  | null hn =>
    intro _
    rw [toJson]
    exact .null hn
  | @items _ _ vs values hlen _ ih =>
    intro hd
    cases hd with
    | list hd =>
      refine coerces_list ?_
      intro x hx
      obtain ⟨i, v, hv, hget⟩ := exists_item_of_mem hlen hx
      exact ih i v x hv hget (hd x hx)
  | @single _ _ _ value _ _ _ ih =>
    intro hd
    cases hd with
    | list hd =>
      -- a list of one is written as an array, whatever stood for it
      refine coerces_list ?_
      intro x hx
      obtain rfl := List.mem_singleton.1 hx
      exact ih (hd x hx)
  | scalar hv htype hleaf =>
    intro _
    obtain ⟨hne, hagain⟩ := hleaves.scalar _ _ _ hv hleaf
    rw [toJson]
    exact .scalar hne htype hagain
  | enum hv htype hleaf =>
    intro _
    obtain ⟨hne, hagain⟩ := hleaves.enum _ _ _ hv hleaf
    rw [toJson]
    exact .enum hne htype hagain
  | @struct name _ given type fields htype _ hnames _ hmissing _ ih =>
    intro hd
    rw [toJson_struct]
    refine coerces_entries htype hnames hmissing hd fun field hf value hvalue => ?_
    obtain ⟨-, -, -, v, hv⟩ := exists_given_of_mem hnames hvalue
    cases hd with
    | struct hd _ => exact ih field v value hf hv hvalue (hd _ _ hvalue)
  | @member name member _ given union value htype hm _ hv ih =>
    intro hd
    obtain ⟨type, hstruct⟩ := hs.struct_of_member htype hm
    have hagain := ih hd
    -- a value of a member is a struct, and its JSON names it
    obtain ⟨fields, rfl, hof⟩ := hv.exists_struct hstruct
    rw [toJson_struct] at hagain ⊢
    exact .member htype hm (lookup_typename_entries hstruct hof hd) hagain

theorem eq_leaf_of_toJson {s : String} (h : value.toJson = .string s) :
    value = .leaf (.string s) := by
  cases value with
  | leaf leaf => rw [toJson] at h; rw [h]
  | null => rw [toJson] at h; cases h
  | list items => rw [toJson_list] at h; cases h
  | struct name fields => rw [toJson_struct] at h; cases h

/-- A declared `__typename` has a value, as the JSON of a struct has an entry of this name. -/
theorem typename_mem_fields
    (hnames : fields.map Prod.fst =
      (presentFields struct.fields.toList (entries name fields)).map Field.name)
    (hcontains : struct.fields.contains Name.typename = true) :
    Name.typename ∈ fields.map Prod.fst := by
  have hdeclared : Name.typename ∈ struct.fields.names := by
    simpa [Table.contains] using hcontains
  obtain ⟨field, hf, hname⟩ := List.mem_map.1 hdeclared
  by_contra hm
  have hlookup : (entries name fields).lookup Name.typename.text = _ :=
    lookup_entries_of_not_mem hm
  rw [if_pos rfl] at hlookup
  apply hm
  rw [hnames]
  refine List.mem_map.2 ⟨field, List.mem_filter.2 ⟨hf, ?_⟩, hname⟩
  change ((entries name fields).lookup (Named.nameOf field).text).isSome = true
  rw [hname, hlookup]
  rfl

/-- **A value whose JSON stands for it is discriminated.** -/
theorem discriminated_of_coerces (h : Coerces c type v value) :
    v = value.toJson → Discriminated c.schema value := by
  induction h with
  | null _ => exact fun _ => .null
  | @items _ _ vs values hlen _ ih =>
    intro hv
    rw [toJson_list] at hv
    cases hv
    refine .list fun x hx => ?_
    obtain ⟨i, hi, rfl⟩ := List.mem_iff_getElem.1 hx
    have hget : values[i]? = some values[i] := List.getElem?_eq_getElem hi
    exact ih i values[i].toJson values[i] (by rw [List.getElem?_map, hget]; rfl) hget rfl
  | single _ harray _ _ =>
    intro hv
    rw [toJson_list] at hv
    exact absurd hv (harray _)
  | scalar _ _ _ => exact fun _ => .leaf
  | enum _ _ _ => exact fun _ => .leaf
  | @struct name _ given type fields htype ht hnames _ _ _ ih =>
    intro hv
    rw [toJson_struct] at hv
    cases hv
    have hof : OfStruct type fields := ofStruct_of_presentFields hnames
    refine .struct (fun field value hvalue => ?_) fun other hother hcontains => ?_
    · obtain ⟨g, hg, rfl⟩ := List.mem_map.1 (hof.declared field (List.mem_map.2 ⟨_, hvalue, rfl⟩))
      exact ih g _ value hg (lookup_entries_of_mem hof.nodup hvalue) hvalue rfl
    · obtain rfl : type = other := by
        rw [htype] at hother
        cases hother
        rfl
      obtain ⟨⟨_, value⟩, hvalue, rfl⟩ := List.mem_map.1 (typename_mem_fields hnames hcontains)
      obtain rfl := eq_leaf_of_toJson (ht _ (lookup_entries_of_mem hof.nodup hvalue))
      exact hvalue
  | member _ _ _ _ ih => exact ih

/-- **The JSON of a coerced value is coerced to the value again** just if the value is
discriminated. -/
theorem coerce_toJson_iff (s : ValidSchema) (config : Config) (root : String) (type : TypeRef)
    (v : Json) (value : CoercedValue)
    (h : coerce ⟨s.schema, config, .builtIn⟩ root type v = .ok value) :
    coerce ⟨s.schema, config, .builtIn⟩ root type value.toJson = .ok value ↔
      Discriminated s.schema value := by
  have hiff := coerce_ok_iff_coerces (c := ⟨s.schema, config, .builtIn⟩) s.wellShaped root type
  rw [hiff] at h ⊢
  constructor
  · exact fun hagain => discriminated_of_coerces hagain rfl
  · exact coerces_toJson s.wellShaped LeafCoercion.stable_builtIn h

/-- The struct `S`, which declares a field `__typename` of its own. -/
def ownTypename : ValidSchema where
  schema := {
    types := ⟨[.scalar ⟨"Int", .refl true⟩,
      .struct ⟨⟨"S", .refl true⟩, ⟨[⟨Name.typename, .named ⟨"Int", .refl true⟩ false, []⟩],
        by decide⟩⟩], by decide⟩
    directives := .empty
    roots := .standard }
  shapeFaults_eq_nil := by decide +kernel

theorem type?_ownTypename : ownTypename.schema.type? ⟨"S", .refl true⟩ =
    some (.struct ⟨⟨"S", .refl true⟩, ⟨[⟨Name.typename, .named ⟨"Int", .refl true⟩ false, []⟩],
      by decide⟩⟩) := rfl

/-- The value of `S` without any field. -/
def withoutFields : CoercedValue := .struct ⟨"S", .refl true⟩ []

theorem coerce_withoutFields :
    coerce ⟨ownTypename.schema, {}, .builtIn⟩ "input" (.named ⟨"S", by decide⟩ false)
      (.object []) = .ok withoutFields := by
  refine (coerce_ok_iff_coerces ownTypename.wellShaped _ _ _ _).2
    (.struct type?_ownTypename nofun rfl nofun ?_ nofun)
  simp [TypeRef.isNonNull]

/-- The JSON has the key of the field, so that it is no value without it. -/
theorem coerce_toJson_withoutFields :
    coerce ⟨ownTypename.schema, {}, .builtIn⟩ "input" (.named ⟨"S", by decide⟩ false)
      withoutFields.toJson ≠ .ok withoutFields := by
  intro h
  have hcoerces := (coerce_ok_iff_coerces ownTypename.wellShaped _ _ _ _).1 h
  rw [withoutFields, toJson_struct] at hcoerces
  cases hcoerces with
  | struct htype _ hnames =>
    cases htype
    exact absurd hnames (by decide)
  | member htype => cases htype

/-- The value without any field lacks the one that says which struct it is. -/
theorem not_discriminated_withoutFields :
    ¬ Discriminated ownTypename.schema withoutFields := by
  intro hd
  have hagain := (coerce_toJson_iff ownTypename {} "input" (.named ⟨"S", by decide⟩ false)
    (.object []) withoutFields coerce_withoutFields).2 hd
  exact coerce_toJson_withoutFields hagain

/-- **Not all JSON of coerced values is accepted again**: the name of a struct stands in the way of
a field that the struct declares. -/
theorem coerce_toJson_not_accepted :
    coerce ⟨ownTypename.schema, {}, .builtIn⟩ "input" (.named ⟨"S", by decide⟩ false)
        (.object []) = .ok withoutFields ∧
      coerce ⟨ownTypename.schema, {}, .builtIn⟩ "input" (.named ⟨"S", by decide⟩ false)
        withoutFields.toJson ≠ .ok withoutFields :=
  ⟨coerce_withoutFields, coerce_toJson_withoutFields⟩

end InputCoercer

end StructQL
