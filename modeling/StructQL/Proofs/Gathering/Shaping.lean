import StructQL.Proofs.Gathering.Grammar
import StructQL.Proofs.Gathering.Projection
import StructQL.Proofs.Input.Typed

/-!
# Exactly what was selected is shown

A selection that was merged for a type, and a value that was coerced at it, agree through the schema:
wherever the selection narrows a struct, it has fields for the struct that is there. So what is shown
has these fields and no others, and nothing else of the value has a say in it.

* `Shaped`: what is shown of a value has its nulls and lists, and the selected fields of its structs.
* `AgreeOn`: two values are the same wherever a selection looks.
* `AgreeOn.project_eq`: **values that agree on a selection are shown alike.**
* `Scoped.shaped`: **a value is shown in the shape of the selection.**
* `Merger.exactly_selected`: both, for what is merged and coerced.
-/

namespace StructQL

open CoercedValue

/-- No struct of a typed value has a field twice. -/
theorem CoercedValue.OfType.distinct {schema : Schema} {base : Name} {c : CoercedValue}
    (h : OfType schema base c) : c.Distinct := by
  induction h with
  | null => exact .null
  | leaf => exact .leaf
  | list _ ih => exact .list ih
  | struct _ _ hfields _ ih =>
    refine .struct hfields.nodup ?_
    intro name v hv
    obtain ⟨field, hfield, rfl⟩ := List.mem_map.1 (hfields.declared name (List.mem_map_of_mem hv))
    exact ih field v hfield hv

namespace Selection

variable {s t : Selection} {c v : CoercedValue} {type name : Name}
  {fields : List (Name × CoercedValue)} {selected : List (Name × Selection)}

/-- **What is shown of a value has its shape.** Null is null, and a list is shown item by item. Of a
struct that is selected as a whole the object has `__typename` and all fields, in their order, and
each field is shown in its own shape; `__typename` is the name of the struct, unless a field is named
so. Of another one there are fields that are selected of it, and these are the keys of the object, in
their order: `__typename` is the name of the struct, and a field that the value lacks is null. -/
inductive Shaped : Selection → CoercedValue → Json → Prop where
  | null {s : Selection} : Shaped s .null .null
  | leaf {value : Json} : Shaped .whole (.leaf value) value
  | list {s : Selection} {items : List CoercedValue} {values : List Json} :
    values.length = items.length →
    (∀ (i : Nat) v a, items[i]? = some v → values[i]? = some a → Shaped s v a) →
    Shaped s (.list items) (.array values)
  | whole {type : Name} {fields : List (Name × CoercedValue)} {members : List (String × Json)} :
    members.map Prod.fst = Name.typename.text ::
      ((fields.map Prod.fst).filter fun name => name ≠ Name.typename).map Name.text →
    (Name.typename ∉ fields.map Prod.fst →
      members.lookup Name.typename.text = some (.string type.text)) →
    (∀ name v, (name, v) ∈ fields → ∃ a, members.lookup name.text = some a) →
    (∀ name v a, (name, v) ∈ fields → members.lookup name.text = some a → Shaped .whole v a) →
    Shaped .whole (.struct type fields) (.object members)
  | narrowed {s : Selection} {selected : List (Name × Selection)} {type : Name}
    {fields : List (Name × CoercedValue)} {members : List (String × Json)} :
    s.fieldsOf? type = some selected →
    members.map Prod.fst = selected.map (fun p => p.1.text) →
    (∀ a, members.lookup Name.typename.text = some a → a = .string type.text) →
    (∀ name a, name ≠ Name.typename → name ∉ fields.map Prod.fst →
      members.lookup name.text = some a → a = .null) →
    (∀ name t v a, name ≠ Name.typename → (name, t) ∈ selected → (name, v) ∈ fields →
      members.lookup name.text = some a → Shaped t v a) →
    Shaped s (.struct type fields) (.object members)

/-- The value of a field, which is null if there is none. -/
def fieldValue (fields : List (Name × CoercedValue)) (name : Name) : CoercedValue :=
  (fields.lookup name).getD .null

/-- **Two values agree on a selection**: on nulls and lists, on which structs there are, and on the
selected fields of each struct. Where the whole value is selected they are the same. -/
inductive AgreeOn : Selection → CoercedValue → CoercedValue → Prop where
  | whole {v : CoercedValue} : AgreeOn .whole v v
  | null {s : Selection} : AgreeOn s .null .null
  | leaf {s : Selection} {value : Json} : AgreeOn s (.leaf value) (.leaf value)
  | list {s : Selection} {items others : List CoercedValue} :
    items.length = others.length →
    (∀ (i : Nat) v w, items[i]? = some v → others[i]? = some w → AgreeOn s v w) →
    AgreeOn s (.list items) (.list others)
  | struct {s : Selection} {type : Name} {fields others : List (Name × CoercedValue)} :
    s ≠ .whole →
    (∀ name t, (name, t) ∈ s.within type → name ≠ Name.typename →
      AgreeOn t (fieldValue fields name) (fieldValue others name)) →
    AgreeOn s (.struct type fields) (.struct type others)

/-! ## Two values -/

theorem shown_eq_project (hname : name ≠ Name.typename) :
    shown type fields name s = s.project (fieldValue fields name) := by
  unfold fieldValue
  cases h : fields.lookup name with
  | none =>
    rw [shown_of_lookup_eq_none hname h, Option.getD_none, project]
  | some v =>
    rw [shown_of_lookup hname h, Option.getD_some]

/-- **Values that agree on a selection are shown alike.** -/
theorem AgreeOn.project_eq {w : CoercedValue} (h : AgreeOn s v w) : s.project v = s.project w := by
  induction h with
  | whole => rfl
  | null => rfl
  | leaf => rfl
  | @list s items others hlength _ ih =>
    have hmap : items.map s.project = others.map s.project := by
      refine List.ext_getElem (by simpa using hlength) ?_
      intro i hi ho
      rw [List.getElem_map, List.getElem_map]
      exact ih i _ _ (List.getElem?_eq_getElem (by simpa using hi))
        (List.getElem?_eq_getElem (by simpa using ho))
    rw [project_list, project_list, hmap]
  | @struct s type fields others hne _ ih =>
    have hfields : projectFields (s.within type) type fields =
        projectFields (s.within type) type others := by
      rw [projectFields_eq_map, projectFields_eq_map]
      refine List.map_congr_left ?_
      rintro ⟨name, t⟩ hmem
      by_cases hname : name = Name.typename
      · subst hname
        rw [shown_typename, shown_typename]
      · rw [shown_eq_project hname, shown_eq_project hname, ih name t hmem hname]
    rw [project_struct hne, project_struct hne, hfields]

/-! ## One value -/

/-- The whole value has its own shape. -/
theorem shaped_whole (hc : c.Distinct) : Shaped .whole c c.toJson := by
  induction hc with
  | null =>
    rw [toJson]
    exact .null
  | leaf =>
    rw [toJson]
    exact .leaf
  | @list items _ ih =>
    rw [toJson_list]
    refine .list (by simp) ?_
    intro i v a hv ha
    rw [List.getElem?_map, hv, Option.map_some] at ha
    obtain rfl : v.toJson = a := Option.some.inj ha
    exact ih v (List.mem_of_getElem? hv)
  | @struct type fields hnd _ ih =>
    rw [toJson_struct]
    have hfound : ∀ name v, (name, v) ∈ fields →
        (entries type fields).lookup name.text = some v.toJson := fun name v hv =>
      lookup_entries_of_mem hnd hv
    refine .whole (map_fst_entries hnd) ?_ (fun name v hv => ⟨v.toJson, hfound name v hv⟩) ?_
    · intro habsent
      rw [lookup_entries_of_not_mem habsent, if_pos rfl]
    · intro name v a hv ha
      rw [hfound name v hv] at ha
      obtain rfl : v.toJson = a := Option.some.inj ha
      exact ih name v hv

theorem within_of_fieldsOf? (h : s.fieldsOf? type = some selected) : s.within type = selected := by
  cases s with
  | whole => cases h
  | struct set =>
    obtain ⟨_, fields⟩ := set
    exact (fieldsOf?_struct.1 h).2
  | union _ members =>
    obtain ⟨set, hset, rfl⟩ := fieldsOf?_union.1 h
    rw [within, hset]
    rfl

/-- **A narrowed struct is shown in the shape of the selection**, if each selected field is. -/
theorem shaped_struct (hfieldsOf : s.fieldsOf? type = some selected)
    (hselected : (selected.map Prod.fst).Nodup) (hfields : (fields.map Prod.fst).Nodup)
    (h : ∀ name t v, name ≠ Name.typename → (name, t) ∈ selected → (name, v) ∈ fields →
      Shaped t v (t.project v)) :
    Shaped s (.struct type fields) (s.project (.struct type fields)) := by
  have hne : s ≠ .whole := by
    rintro rfl
    cases hfieldsOf
  have hlookup : ∀ name, (projectFields selected type fields).lookup name.text =
      (selected.lookup name).map (shown type fields name) := by
    intro name
    rw [projectFields_eq_map, Pairs.lookup_map_text]
  rw [project_struct hne, within_of_fieldsOf? hfieldsOf]
  refine .narrowed hfieldsOf ?_ ?_ ?_ ?_
  · simp [projectFields_eq_map]
  · intro a ha
    rw [hlookup, Option.map_eq_some_iff] at ha
    obtain ⟨t, -, rfl⟩ := ha
    exact shown_typename
  · intro name a hname habsent ha
    rw [hlookup, Option.map_eq_some_iff] at ha
    obtain ⟨t, -, rfl⟩ := ha
    exact shown_of_lookup_eq_none hname (Pairs.lookup_eq_none_iff.2 habsent)
  · intro name t v a hname ht hv ha
    rw [hlookup, Pairs.lookup_of_mem hselected ht, Option.map_some] at ha
    obtain rfl := Option.some.inj ha
    rw [shown_of_lookup hname (Pairs.lookup_of_mem hfields hv)]
    exact h name t v hname ht hv

end Selection

namespace QueryContext

open Selection

variable {ctx : QueryContext} {base : Name} {c : CoercedValue}

/-- **A value of a type is shown in the shape of a selection of this type**: for each struct that is
narrowed the selection has fields. -/
theorem Scoped.shaped (hc : OfType ctx.schema base c) :
    ctx.schema.isStructLike base = true → ∀ {s}, ctx.Scoped base s → Shaped s c (s.project c) := by
  induction hc with
  | null =>
    intro _ s _
    rw [project]
    exact .null
  | leaf hleaf =>
    intro hlike
    simp [hlike] at hleaf
  | @list base items _ ih =>
    intro hlike s hs
    rw [project_list]
    refine .list (by simp) ?_
    intro i v a hv ha
    rw [List.getElem?_map, hv, Option.map_some] at ha
    obtain rfl : s.project v = a := Option.some.inj ha
    exact ih v (List.mem_of_getElem? hv) hlike hs
  | @struct base name type fields hname htype hfields hvalues ih =>
    intro _ s hs
    have hc : OfType ctx.schema base (.struct name fields) := .struct hname htype hfields hvalues
    by_cases hwhole : s = .whole
    · rw [hwhole, project_whole]
      exact shaped_whole hc.distinct
    · -- the struct is one of those that the selection narrows
      obtain ⟨selected, hselected⟩ :=
        Option.isSome_iff_exists.1 ((hs.hasForm hwhole).isSome_fieldsOf?.2 hname)
      refine shaped_struct hselected (hs.nodup hselected) hfields.nodup ?_
      intro n t v hn ht hv
      obtain ⟨field, hfield, rfl⟩ :=
        List.mem_map.1 (hfields.declared n (List.mem_map_of_mem hv))
      have hvalue := hvalues field v hfield hv
      cases hbase : ctx.structField? name field.name with
      | none =>
        rw [hs.leaf hselected ht hbase, project_whole]
        exact shaped_whole hvalue.distinct
      | some fieldBase =>
        obtain ⟨-, found, hfound, rfl, hlike⟩ := structField?_eq_some_iff.1 hbase
        have hdeclared : ctx.schema.field? name field.name = some field :=
          field?_of_struct? (Schema.struct?_eq_some_iff.2 htype) (Table.find?_of_mem hfield)
        obtain rfl : field = found := Option.some.inj (hdeclared.symm.trans hfound)
        exact ih field v hfield hv hlike (hs.nested hselected ht hbase)

end QueryContext

namespace Merger

open Selection QueryContext

/-- **What is shown of a value is exactly what was selected.** Of a selection that was merged for a
type, and values that were coerced at that type or at lists of it: a value is shown in the shape of
the selection, and two values that agree on the selection are shown alike, so nothing is shown that
was not selected. -/
theorem exactly_selected (m : Merger) (scope : Name) (selections : List (List Query.Node))
    (s : Selection) (hs : m.mergeScope scope selections = .ok s)
    (config config' : Config) (leaves leaves' : LeafCoercion) (root root' : String)
    (type type' : TypeRef) (v v' : Json) (c c' : CoercedValue)
    (hc : InputCoercer.coerce ⟨m.schema.schema, config, leaves⟩ root type v = .ok c)
    (hc' : InputCoercer.coerce ⟨m.schema.schema, config', leaves'⟩ root' type' v' = .ok c')
    (htype : type.base = scope) (htype' : type'.base = scope) :
    Shaped s c (s.project c) ∧ Shaped s c' (s.project c') ∧
      (AgreeOn s c c' → s.project c = s.project c') := by
  have hw : m.schema.schema.WellShaped := m.schema.wellShaped
  have hlike : m.schema.schema.isStructLike scope = true := (mergeScope_eq_ok_iff.1 hs).1
  have hscoped : (m.context []).Scoped scope s := scoped_of_mergeScope hs
  have hshaped : ∀ (coercer : InputCoercer), coercer.schema = m.schema.schema →
      ∀ root type v c, type.base = scope → coercer.coerce root type v = .ok c →
        Shaped s c (s.project c) := by
    rintro ⟨_, config, leaves⟩ rfl root type v c rfl hc
    have hcoerces := (InputCoercer.coerce_ok_iff_coerces hw root type v c).1 hc
    exact Scoped.shaped (hcoerces.ofType hw) hlike hscoped
  refine ⟨hshaped _ rfl root type v c htype hc, hshaped _ rfl root' type' v' c' htype' hc', ?_⟩
  intro hagree
  exact hagree.project_eq

/-- A value of `A` without the field `x`, as `withoutXOfA` but for `y`, in a list with a null. -/
def othersOfA : CoercedValue :=
  .list [.struct ⟨"A", .refl true⟩ [(⟨"y", .refl true⟩, .leaf (.string "w"))], .null]

theorem agreeOn_othersOfA :
    AgreeOn (membersOfU [(⟨"x", .refl true⟩, .whole)] []) (.list [withoutXOfA, .null])
      othersOfA := by
  refine .list rfl ?_
  intro i v w hv hw
  rcases i with _ | _ | i
  · obtain rfl : withoutXOfA = v := by simpa using hv
    obtain rfl : _ = w := by simpa using hw
    have hne : membersOfU [(⟨"x", .refl true⟩, .whole)] [] ≠ .whole := by
      intro h
      cases h
    refine .struct hne ?_
    intro name t ht _
    obtain ⟨rfl, rfl⟩ : name = ⟨"x", .refl true⟩ ∧ t = .whole := by
      simpa [membersOfU, within] using ht
    exact .null
  · obtain rfl : CoercedValue.null = v := by simpa using hv
    obtain rfl : CoercedValue.null = w := by simpa using hw
    exact .null
  · simp at hv

theorem coerce_yOfA_null (text : String) :
    InputCoercer.coerce ⟨sharedField.schema.schema, {}, .builtIn⟩ "input"
      (.list (.named ⟨"U", .refl true⟩ false) true)
      (.array [.object [("__typename", .string "A"), ("y", .string text)], .null]) =
        .ok (.list [.struct ⟨"A", .refl true⟩ [(⟨"y", .refl true⟩, .leaf (.string text))], .null]) := by
  refine (InputCoercer.coerce_ok_iff_coerces sharedField.schema.wellShaped _ _ _ _).2
    (.items rfl fun i v value hv hvalue => ?_)
  match i with
  | 0 =>
    cases hv
    cases hvalue
    exact coerces_yOfA text
  | 1 =>
    cases hv
    cases hvalue
    exact .null rfl
  | i + 2 => cases hv

/-- Of lists with values of `A` that lack `x`, the selection `... on A { x }` of the struct union `U`
shows the same, whatever they have as `y`. -/
theorem exactly_selected_othersOfA :
    ∃ v v' : Json, ∃ type : TypeRef, type.base = ⟨"U", .refl true⟩ ∧
      sharedField.mergeScope ⟨"U", .refl true⟩ [onA] =
        .ok (membersOfU [(⟨"x", .refl true⟩, .whole)] []) ∧
      InputCoercer.coerce ⟨sharedField.schema.schema, {}, .builtIn⟩ "input" type v =
        .ok (.list [withoutXOfA, .null]) ∧
      InputCoercer.coerce ⟨sharedField.schema.schema, {}, .builtIn⟩ "input" type v' =
        .ok othersOfA ∧
      (membersOfU [(⟨"x", .refl true⟩, .whole)] []).project (.list [withoutXOfA, .null]) =
        (membersOfU [(⟨"x", .refl true⟩, .whole)] []).project othersOfA := by
  have hmerged : sharedField.mergeScope ⟨"U", .refl true⟩ [onA] =
      .ok (membersOfU [(⟨"x", .refl true⟩, .whole)] []) := by
    cbv
  have hfirst : InputCoercer.coerce ⟨sharedField.schema.schema, {}, .builtIn⟩ "input"
      (.list (.named ⟨"U", .refl true⟩ false) true)
      (.array [.object [("__typename", .string "A"), ("y", .string "v")], .null]) =
        .ok (.list [withoutXOfA, .null]) := coerce_yOfA_null "v"
  have hsecond : InputCoercer.coerce ⟨sharedField.schema.schema, {}, .builtIn⟩ "input"
      (.list (.named ⟨"U", .refl true⟩ false) true)
      (.array [.object [("__typename", .string "A"), ("y", .string "w")], .null]) =
        .ok othersOfA := coerce_yOfA_null "w"
  obtain ⟨-, -, hsame⟩ := exactly_selected sharedField _ _ _ hmerged _ _ _ _ _ _ _ _ _ _ _ _
    hfirst hsecond rfl rfl
  exact ⟨_, _, _, rfl, hmerged, hfirst, hsecond, hsame agreeOn_othersOfA⟩

end Merger

end StructQL
