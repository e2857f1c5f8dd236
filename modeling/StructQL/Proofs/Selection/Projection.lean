import StructQL.Proofs.Input.RoundTrip
import StructQL.Proofs.Selection.Covers
import StructQL.Selection.Projection

/-!
# What selections show of a value

A selection shows a struct key by key, but the whole value shows a struct with the fields that it
has. So what one selection shows is kept by every selection that covers it, save for the fields that
the value lacks: they are null where fields are selected, and left out of the whole value.

* `shown`: what a selection shows under a name, and `projectFields_eq_map`.
* `CoercedValue.Distinct`: no struct of a value has a field twice.
* `Keeps`: what is shown of a value keeps what else is shown of it, with an `Excuse` for what it
  may miss.
* `Covers.keeps`: **what covers a selection keeps all that it shows** but the fields that the value
  lacks.
-/

namespace StructQL

/-! ## The keys of an object -/

namespace Pairs

variable {α β : Type} {f : Name → α → β}

/-- A name is found under its text. -/
theorem lookup_map_text (name : Name) (l : List (Name × α)) :
    (l.map fun p => (p.1.text, f p.1 p.2)).lookup name.text = (l.lookup name).map (f name) := by
  induction l with
  | nil => rfl
  | cons p rest ih =>
    rw [List.map_cons, List.lookup_cons, List.lookup_cons]
    by_cases h : name = p.1
    · subst h
      simp
    · rw [beq_eq_false_iff_ne.2 h, beq_eq_false_iff_ne.2 fun he => h (Name.ext_text he), ih]

/-- Only texts of names are found. -/
theorem exists_lookup_of_map_text {l : List (Name × α)} {key : String} {value : β}
    (h : (l.map fun p => (p.1.text, f p.1 p.2)).lookup key = some value) :
    ∃ name a, name.text = key ∧ l.lookup name = some a ∧ f name a = value := by
  obtain ⟨p, -, he⟩ := List.mem_map.1 (mem_of_lookup h)
  obtain ⟨rfl, -⟩ := Prod.mk.inj he
  rw [lookup_map_text, Option.map_eq_some_iff] at h
  obtain ⟨a, ha, hvalue⟩ := h
  exact ⟨p.1, a, rfl, ha, hvalue⟩

end Pairs

/-! ## What is shown of a struct -/

namespace Selection

variable {s : Selection} {type name : Name} {fields : List (Name × CoercedValue)}
  {selected : List (Name × Selection)}

/-- **What is shown under the name of a selected field**: the name of the struct, or what is
selected of the field, or null if there is none. -/
def shown (type : Name) (fields : List (Name × CoercedValue)) (name : Name) (s : Selection) :
    Json :=
  if name = Name.typename then .string type.text
  else
    match fields.lookup name with
    | some v => s.project v
    | none => .null

theorem shown_typename : shown type fields Name.typename s = .string type.text := if_pos rfl

theorem shown_of_lookup {v : CoercedValue} (hname : name ≠ Name.typename)
    (h : fields.lookup name = some v) : shown type fields name s = s.project v := by
  rw [shown, if_neg hname, h]

theorem shown_of_lookup_eq_none (hname : name ≠ Name.typename) (h : fields.lookup name = none) :
    shown type fields name s = .null := by
  rw [shown, if_neg hname, h]

theorem projectFields_eq_map (selected : List (Name × Selection)) (type : Name)
    (fields : List (Name × CoercedValue)) :
    projectFields selected type fields =
      selected.map fun p => (p.1.text, shown type fields p.1 p.2) := by
  induction selected with
  | nil => rw [projectFields, List.map_nil]
  | cons p rest ih =>
    obtain ⟨name, s⟩ := p
    rw [projectFields, ih, List.map_cons, shown]
    congr 3
    split <;> split <;> simp_all

theorem projectItems_eq_map (s : Selection) (items : List CoercedValue) :
    projectItems s items = items.map s.project := by
  induction items with
  | nil => rw [projectItems, List.map_nil]
  | cons v rest ih => rw [projectItems, ih, List.map_cons]

theorem project_list (s : Selection) (items : List CoercedValue) :
    s.project (.list items) = .array (items.map s.project) := by
  rw [project, projectItems_eq_map]

/-- **The whole value is shown as JSON.** -/
theorem project_whole (v : CoercedValue) : whole.project v = v.toJson := by
  match v with
  | .null => rw [project, CoercedValue.toJson]
  | .leaf _ => rw [project, CoercedValue.toJson]
  | .struct _ _ => rw [project]
  | .list items =>
    rw [project_list, CoercedValue.toJson_list]
    exact congrArg _ (List.map_congr_left fun v _ => project_whole v)
termination_by sizeOf v
decreasing_by
  have := List.sizeOf_lt_of_mem ‹v ∈ items›
  simp only [CoercedValue.list.sizeOf_spec]
  omega

/-- The fields that are selected of a struct. -/
def within (type : Name) : Selection → List (Name × Selection)
  | whole => []
  | struct set => set.fields
  | union _ members => ((members.lookup type).map FieldSet.fields).getD []

theorem project_struct (hs : s ≠ whole) (type : Name) (fields : List (Name × CoercedValue)) :
    s.project (.struct type fields) = .object (projectFields (s.within type) type fields) := by
  cases s with
  | whole => exact absurd rfl hs
  | struct set => rw [project, within]
  | union name members =>
    rw [project, within]
    cases members.lookup type with
    | some set => rfl
    | none => simp [projectFields]

/-- **What covers a selection selects all its fields of a struct**, and of each no less. -/
theorem Covers.exists_within {a m : Selection} (h : m.Covers a) (hm : m ≠ .whole)
    (hs : (a.within type).lookup name = some s) :
    ∃ t, (m.within type).lookup name = some t ∧ t.Covers s := by
  cases m with
  | whole => exact absurd rfl hm
  | struct set =>
    cases a with
    | whole => cases h
    | union => cases h
    | struct =>
      obtain ⟨-, hcover⟩ := covers_struct_iff.1 h
      exact hcover.exists_lookup (Pairs.mem_of_lookup hs)
  | union _ members =>
    cases a with
    | whole => cases h
    | struct => cases h
    | union _ others =>
      obtain ⟨-, hcover⟩ := covers_union_iff.1 h
      rw [within] at hs
      cases hset : others.lookup type with
      | none =>
        rw [hset] at hs
        cases hs
      | some y =>
        rw [hset] at hs
        obtain ⟨x, hx, -, hfields⟩ := hcover.exists_lookup (Pairs.mem_of_lookup hset)
        rw [within, hx]
        exact hfields.exists_lookup (Pairs.mem_of_lookup hs)

end Selection

/-! ## Values without repeated fields -/

/-- **No struct of a value has a field twice.** -/
inductive CoercedValue.Distinct : CoercedValue → Prop where
  | null : Distinct .null
  | leaf {value : Json} : Distinct (.leaf value)
  | list {items : List CoercedValue} : (∀ v ∈ items, Distinct v) → Distinct (.list items)
  | struct {type : Name} {fields : List (Name × CoercedValue)} :
    (fields.map Prod.fst).Nodup → (∀ name v, (name, v) ∈ fields → Distinct v) →
    Distinct (.struct type fields)

/-- **Coercion gives no field twice.** -/
theorem InputCoercer.Coerces.distinct {c : InputCoercer} {type : TypeRef} {v : Json}
    {value : CoercedValue} (h : Coerces c type v value) : value.Distinct := by
  induction h with
  | null => exact .null
  | @items _ _ vs values hlen _ ih =>
    refine .list fun x hx => ?_
    obtain ⟨i, v, hv, hget⟩ := exists_item_of_mem hlen hx
    exact ih i v x hv hget
  | single _ _ _ ih =>
    refine .list fun x hx => ?_
    obtain rfl := List.mem_singleton.1 hx
    exact ih
  | scalar => exact .leaf
  | enum => exact .leaf
  | @struct _ _ given type fields _ _ hnames _ _ _ ih =>
    refine .struct (ofStruct_of_presentFields hnames).nodup fun name x hx => ?_
    obtain ⟨field, hdeclared, rfl, w, hw⟩ := exists_given_of_mem hnames hx
    exact ih field w x hdeclared hw hx
  | member _ _ _ _ ih => exact ih

/-! ## What is kept -/

/-- What an object may miss of what else is shown of a struct with some fields, under a name. -/
def Excuse : Type :=
  Name → List (Name × CoercedValue) → List (String × Json) → Name → Json → Prop

/-- Nothing may be missed. -/
def Excuse.never : Excuse := fun _ _ _ _ _ => False

/-- **A whole value misses the null of a field that it lacks.** Nor is it known what it has under
`__typename` if this is a field of its own. -/
def Excuse.wholeValue : Excuse := fun type fields kept name value =>
  .object kept = (CoercedValue.struct type fields).toJson ∧
    if name = Name.typename then Name.typename ∈ fields.map Prod.fst
    else name ∉ fields.map Prod.fst ∧ value = .null ∧ kept.lookup name.text = none

mutual

/-- **What is shown of a value keeps what else is shown of it**: the same items of a list and the
same keys of a struct, with what is kept of them, and everything else unchanged. -/
inductive Keeps (excuse : Excuse) : CoercedValue → Json → Json → Prop where
  | same {v : CoercedValue} {value : Json} : Keeps excuse v value value
  | list {items : List CoercedValue} {values kept : List Json} :
    values.length = items.length → kept.length = items.length →
    (∀ (i : Nat) v a b, items[i]? = some v → values[i]? = some a → kept[i]? = some b →
      Keeps excuse v a b) →
    Keeps excuse (.list items) (.array values) (.array kept)
  | struct {type : Name} {fields : List (Name × CoercedValue)}
    {values kept : List (String × Json)} :
    (∀ key a, values.lookup key = some a → KeepsKey excuse type fields kept key a) →
    Keeps excuse (.struct type fields) (.object values) (.object kept)

/-- An object keeps what else is shown of a struct under a key. -/
inductive KeepsKey (excuse : Excuse) : Name → List (Name × CoercedValue) →
    List (String × Json) → String → Json → Prop where
  | field {type name : Name} {fields : List (Name × CoercedValue)} {kept : List (String × Json)}
    {v : CoercedValue} {a b : Json} :
    (name, v) ∈ fields → kept.lookup name.text = some b → Keeps excuse v a b →
    KeepsKey excuse type fields kept name.text a
  | equal {type : Name} {fields : List (Name × CoercedValue)} {kept : List (String × Json)}
    {key : String} {a : Json} :
    kept.lookup key = some a → KeepsKey excuse type fields kept key a
  | excused {type name : Name} {fields : List (Name × CoercedValue)}
    {kept : List (String × Json)} {a : Json} :
    excuse type fields kept name a → KeepsKey excuse type fields kept name.text a

end

/-- **Without an excuse no key is missed.** -/
theorem KeepsKey.isSome_lookup {type : Name} {fields : List (Name × CoercedValue)}
    {kept : List (String × Json)} {key : String} {a : Json}
    (h : KeepsKey .never type fields kept key a) : (kept.lookup key).isSome = true := by
  cases h with
  | field _ hlookup _ => rw [hlookup]; rfl
  | equal hlookup => rw [hlookup]; rfl
  | excused hexcuse => exact hexcuse.elim

theorem Keeps.isSome_lookup {v : CoercedValue} {values kept : List (String × Json)}
    {key : String} {a : Json} (h : Keeps .never v (.object values) (.object kept))
    (ha : values.lookup key = some a) : (kept.lookup key).isSome = true := by
  cases h with
  | same => rw [ha]; rfl
  | struct hkeys => exact (hkeys key a ha).isSome_lookup

namespace Selection

open CoercedValue

variable {a m s t : Selection} {c v : CoercedValue} {type name : Name}
  {fields : List (Name × CoercedValue)}

/-- **A whole struct keeps what is shown under the name of a selected field**, if the struct has the
field. -/
theorem keepsKey_entries (hnd : (fields.map Prod.fst).Nodup)
    (hfield : ∀ v, (name, v) ∈ fields → Keeps .wholeValue v (s.project v) v.toJson) :
    KeepsKey .wholeValue type fields (entries type fields) name.text (shown type fields name s) := by
  by_cases hname : name = Name.typename
  · subst hname
    by_cases hown : Name.typename ∈ fields.map Prod.fst
    · exact .excused ⟨(toJson_struct type fields).symm, by rwa [if_pos rfl]⟩
    · refine .equal ?_
      rw [lookup_entries_of_not_mem hown, if_pos rfl, shown_typename]
  · cases hv : fields.lookup name with
    | some v =>
      have hmem := Pairs.mem_of_lookup hv
      rw [shown_of_lookup hname hv]
      exact .field hmem (lookup_entries_of_mem hnd hmem) (hfield v hmem)
    | none =>
      have habsent := Pairs.lookup_eq_none_iff.1 hv
      rw [shown_of_lookup_eq_none hname hv]
      refine .excused ⟨(toJson_struct type fields).symm, ?_⟩
      rw [if_neg hname]
      refine ⟨habsent, rfl, ?_⟩
      rw [lookup_entries_of_not_mem habsent, if_neg hname]

/-- Fields that are selected again keep what is shown under their names. -/
theorem keepsKey_projectFields {selected : List (Name × Selection)}
    (ht : selected.lookup name = some t)
    (hfield : ∀ v, (name, v) ∈ fields → Keeps .wholeValue v (s.project v) (t.project v)) :
    KeepsKey .wholeValue type fields (projectFields selected type fields) name.text
      (shown type fields name s) := by
  have hlookup : (projectFields selected type fields).lookup name.text =
      some (shown type fields name t) := by
    rw [projectFields_eq_map, Pairs.lookup_map_text, ht, Option.map_some]
  by_cases hname : name = Name.typename
  · subst hname
    refine .equal ?_
    rw [hlookup, shown_typename, shown_typename]
  · cases hv : fields.lookup name with
    | some v =>
      have hmem := Pairs.mem_of_lookup hv
      rw [shown_of_lookup hname hv] at hlookup ⊢
      exact .field hmem hlookup (hfield v hmem)
    | none =>
      rw [shown_of_lookup_eq_none hname hv] at hlookup ⊢
      exact .equal hlookup

/-- **What covers a selection keeps all that it shows** but the fields that the value lacks, which
are left out where the whole value is shown. -/
theorem Covers.keeps (hc : c.Distinct) :
    ∀ {a m : Selection}, m.Covers a → Keeps .wholeValue c (a.project c) (m.project c) := by
  induction hc with
  | null =>
    intro a m _
    rw [project, project]
    exact .same
  | leaf =>
    intro a m _
    rw [project, project]
    exact .same
  | list _ ih =>
    intro a m hcovers
    rw [project_list, project_list]
    refine .list (by simp) (by simp) fun i v x y hv hx hy => ?_
    rw [List.getElem?_map, hv] at hx hy
    cases hx
    cases hy
    exact ih v (List.mem_of_getElem? hv) hcovers
  | @struct type fields hnd _ ih =>
    intro a m hcovers
    by_cases ha : a = .whole
    · subst ha
      cases hcovers
      exact .same
    · rw [project_struct ha]
      by_cases hm : m = .whole
      · subst hm
        rw [project_whole, toJson_struct]
        refine .struct fun key x hx => ?_
        rw [projectFields_eq_map] at hx
        obtain ⟨name, s, rfl, -, rfl⟩ := Pairs.exists_lookup_of_map_text hx
        refine keepsKey_entries hnd fun v hv => ?_
        rw [← project_whole v]
        exact ih name v hv .whole
      · rw [project_struct hm]
        refine .struct fun key x hx => ?_
        rw [projectFields_eq_map] at hx
        obtain ⟨name, s, rfl, hs, rfl⟩ := Pairs.exists_lookup_of_map_text hx
        obtain ⟨t, ht, hts⟩ := hcovers.exists_within hm hs
        exact keepsKey_projectFields ht fun v hv => ih name v hv hts

end Selection

end StructQL
