import StructQL.Proofs.Input.Coerces
import StructQL.Proofs.Input.Path

/-!
# The faults of an input value

What coercion reports about a value, said for each value by itself, without the report that the
whole input shares.

* `InputCoercer.valueFaults`: the faults of a value at a place.
* `discriminate_eq_ok_iff`, `discriminate_eq_error_iff`: the struct that an object is taken for, and
  why it is taken for none.
* `typenameFault?_eq_some_iff`, `mem_unknownFieldFaults`: what is wrong with the keys of an object.
* `covers_of_mem_valueFaults`: they point at this place or below it.
-/

namespace StructQL

namespace InputCoercer

/-- The fault of a leaf that is refused. -/
def leafFaults (path : InputPath) : Except String Json → List Fault
  | .ok _ => []
  | .error message => [.invalidInputValue path.text message]

/-- The fault of a field that a struct lacks. -/
def missingFaults (structName : Name) (field : Field) (path : InputPath) : List Fault :=
  if field.type.isNonNull then [.missingRequiredField path.text structName field.name] else []

variable (c : InputCoercer)

mutual

/-- **The faults of a value at a place.** -/
def valueFaults (type : TypeRef) (v : Json) (path : InputPath) : List Fault :=
  match v with
  | .null =>
    if type.isNonNull then
      [.invalidInputValue path.text s!"Expected a non-null value of type \"{type}\""]
    else []
  | v =>
    match type with
    | .named name _ => namedFaults name v path
    | .list item _ =>
      match v with
      | .array items => itemsFaults item items path 0
      | v => valueFaults item v path
termination_by (sizeOf v, sizeOf type, 0)

/-- The faults of the items of a list, from an index on. -/
def itemsFaults (item : TypeRef) (items : List Json) (path : InputPath) (i : Nat) : List Fault :=
  match items with
  | [] => []
  | v :: rest =>
    valueFaults item v (path.step (.index i)) ++ itemsFaults item rest path (i + 1)
termination_by (sizeOf items, 0, 0)

/-- The faults of a value that is not null at a named type. -/
def namedFaults (name : Name) (v : Json) (path : InputPath) : List Fault :=
  let refusal (message : String) : List Fault := [.invalidInputValue path.text message]
  match c.schema.type? name with
  | some (.scalar _) => leafFaults path (c.leaves.scalar name v)
  | some (.enum type) => leafFaults path (c.leaves.enum type v)
  | some (.struct type) =>
    match v with
    | .object entries =>
      match typenameFault? name entries path with
      | none => structFaults type entries path
      | some fault => [fault]
    | v => refusal s!"Expected an object for struct \"{name}\", found {v.compact}"
  | some (.structUnion union) =>
    match v with
    | .object entries =>
      match discriminate c union entries path with
      | .ok type => structFaults type entries path
      | .error fault => [fault]
    | v => refusal s!"Expected an object for struct union \"{name}\", found {v.compact}"
  | some other => refusal s!"\"{name}\" is {other.kind} and cannot be coerced as struct input"
  | none => refusal s!"Unknown type \"{name}\""
termination_by (sizeOf v, 0, 1)

/-- The faults of an object as a value of a struct. -/
def structFaults (type : StructType) (entries : List (String × Json)) (path : InputPath) :
    List Fault :=
  unknownFieldFaults c type entries path ++
    fieldsFaults type.name type.fields.toList entries path
termination_by (sizeOf entries, 1, 0)

/-- The faults of the fields of a struct. -/
def fieldsFaults (structName : Name) (fields : List Field) (entries : List (String × Json))
    (path : InputPath) : List Fault :=
  match fields with
  | [] => []
  | field :: rest =>
    (match _h : entries.lookup field.name.text with
      | some v => valueFaults field.type v (path.step (.field field.name))
      | none => missingFaults structName field path) ++
      fieldsFaults structName rest entries path
termination_by (sizeOf entries, 0, fields.length)
decreasing_by
  · exact .left _ _ (Pairs.sizeOf_lookup_lt _h)
  · exact .right _ (.right _ (Nat.lt_succ_self _))

end

variable {c} {path : InputPath} {f : Fault}

section

variable {type item : TypeRef} {name : Name} {nonNull : Bool} {v : Json}

theorem valueFaults_null :
    c.valueFaults type .null path =
      if type.isNonNull then
        [.invalidInputValue path.text s!"Expected a non-null value of type \"{type}\""]
      else [] := by
  rw [valueFaults]

theorem valueFaults_named (hv : v ≠ .null) :
    c.valueFaults (.named name nonNull) v path = c.namedFaults name v path := by
  cases v with
  | null => exact absurd rfl hv
  | _ => rw [valueFaults]; exact hv

theorem valueFaults_array {items : List Json} :
    c.valueFaults (.list item nonNull) (.array items) path = c.itemsFaults item items path 0 := by
  rw [valueFaults]

theorem valueFaults_single (hv : v ≠ .null) (ha : ∀ items, v ≠ .array items) :
    c.valueFaults (.list item nonNull) v path = c.valueFaults item v path := by
  cases v with
  | null => exact absurd rfl hv
  | array items => exact absurd rfl (ha items)
  | _ => rw [valueFaults] <;> nofun

variable {structName : Name} {field : Field} {rest : List Field} {entries : List (String × Json)}

theorem fieldsFaults_some (h : entries.lookup field.name.text = some v) :
    c.fieldsFaults structName (field :: rest) entries path =
      c.valueFaults field.type v (path.step (.field field.name)) ++
        c.fieldsFaults structName rest entries path := by
  rw [fieldsFaults]
  congr 1
  split
  · rename_i w hw
    rw [Option.some.inj (h.symm.trans hw)]
  · rename_i hn
    rw [hn] at h; cases h

theorem fieldsFaults_none (h : entries.lookup field.name.text = none) :
    c.fieldsFaults structName (field :: rest) entries path =
      missingFaults structName field path ++ c.fieldsFaults structName rest entries path := by
  rw [fieldsFaults]
  congr 1
  split
  · rename_i w hw
    rw [h] at hw; cases hw
  · rfl

end

/-! ## The faults of a leaf -/

theorem mem_leafFaults_iff {r : Except String Json} :
    f ∈ leafFaults path r ↔ ∃ message, r = .error message ∧ f = .invalidInputValue path.text message := by
  cases r with
  | ok v => exact iff_of_false List.not_mem_nil nofun
  | error message =>
    rw [leafFaults, List.mem_singleton]
    constructor
    · intro h
      exact ⟨message, rfl, h⟩
    · rintro ⟨_, hmessage, rfl⟩
      rw [Except.error.inj hmessage]

/-! ## The faults of an object by itself -/

theorem asString?_eq_some_iff {v : Json} {text : String} : v.asString? = some text ↔ v = .string text := by
  cases v <;> simp [Json.asString?]

/-- What stands under `__typename` is something else than the name of the struct. -/
theorem typenameFault?_eq_some_iff {name : Name} {entries : List (String × Json)} :
    typenameFault? name entries path = some f ↔
      ∃ found, entries.lookup Name.typename.text = some found ∧ found ≠ .string name.text ∧
        f = .typeMismatch path.text name (discriminatorText found) := by
  unfold typenameFault?
  cases entries.lookup Name.typename.text with
  | none => simp
  | some found =>
    by_cases hname : found = .string name.text
    · simp [hname, Json.asString?]
    · have hother : ¬ found.asString? = some name.text := fun h => hname (asString?_eq_some_iff.1 h)
      simp [hname, hother, eq_comm]

/-- The object names no struct, or the struct itself. -/
theorem typenameFault?_eq_none_iff {name : Name} {entries : List (String × Json)} :
    typenameFault? name entries path = none ↔
      ∀ v, entries.lookup Name.typename.text = some v → v = .string name.text := by
  constructor
  · intro h v hv
    by_contra hother
    rw [typenameFault?_eq_some_iff.2 ⟨v, hv, hother, rfl⟩] at h
    cases h
  · intro h
    refine Option.eq_none_iff_forall_ne_some.2 fun f hf => ?_
    obtain ⟨found, hfound, hother, -⟩ := typenameFault?_eq_some_iff.1 hf
    exact hother (h found hfound)

theorem find?_text_eq_some_iff {names : List Name} {name : Name} {text : String} :
    names.find? (fun n => n.text = text) = some name ↔ name ∈ names ∧ name.text = text := by
  constructor
  · intro h
    exact ⟨List.mem_of_find?_eq_some h, by simpa using List.find?_some h⟩
  · rintro ⟨hmem, rfl⟩
    obtain ⟨other, hother⟩ : ∃ other, names.find? (fun n => n.text = name.text) = some other :=
      Option.isSome_iff_exists.1 (List.find?_isSome.2 ⟨name, hmem, by simp⟩)
    have htext : other.text = name.text := by simpa using List.find?_some hother
    rw [hother, Name.ext_text htext]

section

variable {union : UnionType} {entries : List (String × Json)} {type : StructType}

/-- What stands under `__typename` is the name of a struct of the union. -/
theorem named_eq_some_iff {found : Json} :
    (do
      let text ← found.asString?
      let member ← union.members.find? fun m => m.text = text
      c.schema.struct? member : Option StructType) = some type ↔
      ∃ member ∈ union.members, found = .string member.text ∧
        c.schema.type? member = some (.struct type) := by
  simp only [Option.bind_eq_bind, Option.bind_eq_some_iff, asString?_eq_some_iff,
    find?_text_eq_some_iff, Schema.struct?_eq_some_iff]
  constructor
  · rintro ⟨_, rfl, member, ⟨hmember, rfl⟩, hstruct⟩
    exact ⟨member, hmember, rfl, hstruct⟩
  · rintro ⟨member, hmember, rfl, hstruct⟩
    exact ⟨member.text, rfl, member, ⟨hmember, rfl⟩, hstruct⟩

/-- **The object names a struct of the union.** -/
theorem discriminate_eq_ok_iff :
    c.discriminate union entries path = .ok type ↔
      ∃ member ∈ union.members, entries.lookup Name.typename.text = some (.string member.text) ∧
        c.schema.type? member = some (.struct type) := by
  unfold discriminate
  split
  · rename_i hl
    simp [hl]
  · rename_i hl
    simp [hl]
  · rename_i found hnull hl
    simp only [hl, Option.some.injEq, ← named_eq_some_iff]
    split
    · rename_i other hnamed
      rw [hnamed, Except.ok.injEq, Option.some.injEq]
    · rename_i hnamed
      rw [hnamed]
      exact iff_of_false nofun nofun

/-- The object does not name anything, or what it names is no struct of the union. -/
theorem discriminate_eq_error_iff :
    c.discriminate union entries path = .error f ↔
      ((entries.lookup Name.typename.text = none ∨
          entries.lookup Name.typename.text = some .null) ∧
        f = .missingDiscriminator path.text union.name) ∨
      ∃ found, entries.lookup Name.typename.text = some found ∧ found ≠ .null ∧
        (∀ member ∈ union.members, ∀ type, c.schema.type? member = some (.struct type) →
          found ≠ .string member.text) ∧
        f = .unknownDiscriminator path.text union.name (discriminatorText found) := by
  unfold discriminate
  split
  · rename_i hl
    simp [hl, eq_comm]
  · rename_i hl
    simp [hl, eq_comm]
  · rename_i found hnull hl
    have hfound : found ≠ .null := hnull
    have hmissing : ¬ (entries.lookup Name.typename.text = none ∨
        entries.lookup Name.typename.text = some .null) := by
      simp [hl, hfound]
    rw [or_iff_right fun h => hmissing h.1, hl]
    simp only [Option.some.injEq, exists_eq_left', hfound, ne_eq, not_false_eq_true, true_and]
    split
    · rename_i type hnamed
      obtain ⟨member, hmember, hname, hstruct⟩ := named_eq_some_iff.1 hnamed
      exact iff_of_false nofun fun h => h.1 member hmember type hstruct hname
    · rename_i hnamed
      rw [Except.error.injEq, eq_comm, iff_and_self]
      rintro - member hmember type hstruct hname
      rw [named_eq_some_iff.2 ⟨member, hmember, hname, hstruct⟩] at hnamed
      cases hnamed

end

/-- The object has a field that is not defined. -/
theorem mem_unknownFieldFaults {type : StructType} {entries : List (String × Json)} :
    f ∈ c.unknownFieldFaults type entries path ↔
      c.config.rejectUnknownInputFields = true ∧ ∃ e ∈ entries, e.1 ≠ Name.typename.text ∧
        (∀ field ∈ type.fields.toList, field.name.text ≠ e.1) ∧
        f = .unknownInputField path.text type.name e.1 := by
  unfold unknownFieldFaults
  split
  · rename_i hreject
    rw [List.mem_map]
    simp only [List.mem_filter, hreject, true_and, and_assoc]
    refine exists_congr fun e => and_congr_right fun _ => ?_
    rw [Bool.and_eq_true, decide_eq_true_iff, Bool.not_eq_true', List.any_eq_false, and_assoc,
      @eq_comm _ f]
    simp only [decide_eq_true_iff, ne_eq]
  · rename_i hreject
    simp [hreject]

theorem unknownFieldFaults_eq_nil_iff {type : StructType} {entries : List (String × Json)} :
    c.unknownFieldFaults type entries path = [] ↔
      (c.config.rejectUnknownInputFields = true → Known type entries) := by
  rw [List.eq_nil_iff_forall_not_mem]
  constructor
  · intro h hreject e he
    by_contra hunknown
    rw [not_or, not_exists] at hunknown
    exact h _ (mem_unknownFieldFaults.2 ⟨hreject, e, he, hunknown.1,
      fun field hfield hname => hunknown.2 field ⟨hfield, hname⟩, rfl⟩)
  · intro h f hf
    obtain ⟨hreject, e, he, htypename, hfields, -⟩ := mem_unknownFieldFaults.1 hf
    rcases h hreject e he with hname | ⟨field, hfield, hname⟩
    · exact htypename hname
    · exact hfields field hfield hname

/-! ## Where the faults are -/

theorem place?_of_mem_leafFaults {r : Except String Json} (h : f ∈ leafFaults path r) :
    f.place? = some path.text := by
  obtain ⟨message, -, rfl⟩ := mem_leafFaults_iff.1 h
  rfl

theorem place?_of_mem_missingFaults {n : Name} {field : Field}
    (h : f ∈ missingFaults n field path) : f.place? = some path.text := by
  unfold missingFaults at h
  split at h
  · rw [List.mem_singleton.1 h]; rfl
  · cases h

theorem place?_of_mem_unknownFieldFaults {type : StructType} {entries : List (String × Json)}
    (h : f ∈ unknownFieldFaults c type entries path) : f.place? = some path.text := by
  obtain ⟨-, e, -, -, -, rfl⟩ := mem_unknownFieldFaults.1 h
  rfl

theorem place?_of_typenameFault? {n : Name} {entries : List (String × Json)}
    (h : typenameFault? n entries path = some f) : f.place? = some path.text := by
  obtain ⟨found, -, -, rfl⟩ := typenameFault?_eq_some_iff.1 h
  rfl

theorem place?_of_discriminate {union : UnionType} {entries : List (String × Json)}
    (h : discriminate c union entries path = .error f) : f.place? = some path.text := by
  obtain ⟨-, rfl⟩ | ⟨found, -, -, -, rfl⟩ := discriminate_eq_error_iff.1 h
  · rfl
  · rfl

mutual

/-- **The faults of a value point at its place or below it.** -/
theorem covers_of_mem_valueFaults (type : TypeRef) (v : Json) (path : InputPath) (f : Fault)
    (h : f ∈ c.valueFaults type v path) : path.Covers f := by
  rw [valueFaults.eq_def] at h
  split at h
  · split at h
    · rw [List.mem_singleton.1 h]; exact .here rfl
    · cases h
  · split at h
    · exact covers_of_mem_namedFaults _ v path f h
    · split at h
      · obtain ⟨j, -, hj⟩ := covers_of_mem_itemsFaults _ _ path 0 f h
        exact hj.of_step
      · exact covers_of_mem_valueFaults _ v path f h
termination_by (sizeOf v, sizeOf type, 0)

/-- Each fault of the items of a list is below one of their indices. -/
theorem covers_of_mem_itemsFaults (item : TypeRef) (items : List Json) (path : InputPath) (i : Nat)
    (f : Fault) (h : f ∈ c.itemsFaults item items path i) :
    ∃ j, i ≤ j ∧ (path.step (.index j)).Covers f := by
  match items with
  | [] => rw [itemsFaults] at h; cases h
  | v :: rest =>
    rw [itemsFaults, List.mem_append] at h
    rcases h with h | h
    · exact ⟨i, Nat.le_refl i, covers_of_mem_valueFaults item v _ f h⟩
    · obtain ⟨j, hj, hc⟩ := covers_of_mem_itemsFaults item rest path (i + 1) f h
      exact ⟨j, by omega, hc⟩
termination_by (sizeOf items, 0, 0)

theorem covers_of_mem_namedFaults (name : Name) (v : Json) (path : InputPath) (f : Fault)
    (h : f ∈ c.namedFaults name v path) : path.Covers f := by
  rw [namedFaults.eq_def] at h
  dsimp only at h
  split at h
  · exact .here (place?_of_mem_leafFaults h)
  · exact .here (place?_of_mem_leafFaults h)
  · split at h
    · split at h
      · exact covers_of_mem_structFaults _ _ path f h
      · rename_i ht
        rw [List.mem_singleton.1 h]
        exact .here (place?_of_typenameFault? ht)
    · rw [List.mem_singleton.1 h]; exact .here rfl
  · split at h
    · split at h
      · exact covers_of_mem_structFaults _ _ path f h
      · rename_i hd
        rw [List.mem_singleton.1 h]
        exact .here (place?_of_discriminate hd)
    · rw [List.mem_singleton.1 h]; exact .here rfl
  · rw [List.mem_singleton.1 h]; exact .here rfl
  · rw [List.mem_singleton.1 h]; exact .here rfl
termination_by (sizeOf v, 0, 1)

theorem covers_of_mem_structFaults (type : StructType) (entries : List (String × Json))
    (path : InputPath) (f : Fault) (h : f ∈ c.structFaults type entries path) :
    path.Covers f := by
  rw [structFaults, List.mem_append] at h
  rcases h with h | h
  · exact .here (place?_of_mem_unknownFieldFaults h)
  · rcases covers_of_mem_fieldsFaults _ _ entries path f h with hp | ⟨field, -, hc⟩
    · exact .here hp
    · exact hc.of_step
termination_by (sizeOf entries, 1, 0)

/-- Each fault of the fields of a struct points at the struct or is below one of the fields. -/
theorem covers_of_mem_fieldsFaults (structName : Name) (fields : List Field)
    (entries : List (String × Json)) (path : InputPath) (f : Fault)
    (h : f ∈ c.fieldsFaults structName fields entries path) :
    f.place? = some path.text ∨
      ∃ field ∈ fields, (path.step (.field field.name)).Covers f := by
  match fields with
  | [] => rw [fieldsFaults] at h; cases h
  | field :: rest =>
    rw [fieldsFaults, List.mem_append] at h
    rcases h with h | h
    · split at h
      · rename_i v hv
        exact .inr ⟨field, List.mem_cons_self, covers_of_mem_valueFaults field.type v _ f h⟩
      · exact .inl (place?_of_mem_missingFaults h)
    · rcases covers_of_mem_fieldsFaults structName rest entries path f h with hp | ⟨g, hg, hc⟩
      · exact .inl hp
      · exact .inr ⟨g, List.mem_cons_of_mem _ hg, hc⟩
termination_by (sizeOf entries, 0, fields.length)
decreasing_by
  -- the value of a field is smaller than the object, and the other fields are fewer
  · rename_i hv _
    exact .left _ _ (Pairs.sizeOf_lookup_lt hv)
  · exact .right _ (.right _ (Nat.lt_succ_self _))

end

end InputCoercer

end StructQL
