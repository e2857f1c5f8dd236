import Mathlib.Data.Set.Basic
import StructQL.Gathering.StructSelection
import StructQL.Proofs.Expansion.Selects

/-!
# What a selection of a struct has to be

Field collection, said for one struct at a time: a field is selected of a struct if one of its
occurrences concerns the struct. Which ones do is left open, as a route from the conditions around
an occurrence.

* `QueryContext.covering`: the route by which all conditions around an occurrence must cover the
  struct.
* `QueryContext.nearest`: the route by which only the innermost one decides.
* `QueryContext.Collects`: the selection that sites have by a route.
* `QueryContext.Agree`: two routes select the same.
* `Collects.agree`, `Collects.of_agree`: **a selection by one route is one by another just if they
  agree.**
-/

namespace StructQL

/-- Which occurrences concern a type: in a scope, under the conditions around them, for a field. -/
abbrev Route := Name → Name → List Name → Name → Prop

/-- The fields that a selection has of a struct. -/
def Selection.fieldsOf? (s : Selection) (type : Name) : Option (List (Name × Selection)) :=
  match s with
  | whole => none
  | struct set => if set.typeName = type then some set.fields else none
  | union _ members => (members.lookup type).map FieldSet.fields

namespace QueryContext

variable (ctx : QueryContext)

/-- **All conditions around an occurrence cover the type.** -/
def covering : Route := fun _ type conditions _ =>
  ∀ condition ∈ conditions, type ∈ ctx.schema.possibleTypes condition

/-- **The innermost condition covers the type**, which is asked in struct unions only, and the type
has the field. -/
def nearest : Route := fun scope type conditions fieldName =>
  ((ctx.schema.structUnion? scope).isSome = true →
    type ∈ ctx.schema.possibleTypes (innermost conditions scope)) ∧
    (fieldName = Name.typename ∨ (ctx.schema.field? type fieldName).isSome = true)

/-- What is selected of the values of a field, by those of its occurrences that concern a type. -/
def routed (route : Route) (scope : Name) (S : Set (List Query.Node)) (type fieldName : Name) :
    Set (List Query.Node) :=
  {selections | ∃ nodes ∈ S, ∃ conditions names key,
    ctx.Selects nodes conditions names ⟨key, fieldName, selections⟩ ∧
      route scope type conditions fieldName}

/-- The struct or struct union that a field has values of, unless they are leaves. -/
def structField? (type fieldName : Name) : Option Name :=
  if fieldName = Name.typename then none
  else (ctx.schema.field? type fieldName).bind fun field =>
    if ctx.schema.isStructLike field.type.base then some field.type.base else none

/-- **The selection that selections have together by a route.** It is the whole value if one of
them is bare. Otherwise it has, of each struct, the fields with an occurrence that concerns it, and
what these occurrences select of them. -/
inductive Collects (route : Route) : Name → Set (List Query.Node) → Selection → Prop where
  | whole {scope : Name} {S : Set (List Query.Node)} : [] ∈ S → Collects route scope S .whole
  | narrowed {scope : Name} {S : Set (List Query.Node)} {s : Selection} :
    [] ∉ S → s.typeName? = some scope →
    (∀ type, (s.fieldsOf? type).isSome = true ↔ type ∈ ctx.schema.possibleTypes scope) →
    (∀ type fields, s.fieldsOf? type = some fields → (fields.map Prod.fst).Nodup ∧
      ∀ name, name ∈ fields.map Prod.fst ↔ (ctx.routed route scope S type name).Nonempty) →
    (∀ type fields name selection, s.fieldsOf? type = some fields → (name, selection) ∈ fields →
      ctx.structField? type name = none → selection = .whole) →
    (∀ type fields name selection base, s.fieldsOf? type = some fields →
      (name, selection) ∈ fields → ctx.structField? type name = some base →
      Collects route base (ctx.routed route scope S type name) selection) →
    Collects route scope S s

/-- **Two routes select the same**: a bare occurrence under both or under none, and the same fields
of each struct, and the same of each of these. -/
inductive Agree (route₁ route₂ : Route) :
    Name → Set (List Query.Node) → Set (List Query.Node) → Prop where
  | whole {scope : Name} {S₁ S₂ : Set (List Query.Node)} :
    [] ∈ S₁ → [] ∈ S₂ → Agree route₁ route₂ scope S₁ S₂
  | narrowed {scope : Name} {S₁ S₂ : Set (List Query.Node)} :
    [] ∉ S₁ → [] ∉ S₂ →
    (∀ type ∈ ctx.schema.possibleTypes scope, ∀ name,
      (ctx.routed route₁ scope S₁ type name).Nonempty ↔
        (ctx.routed route₂ scope S₂ type name).Nonempty) →
    (∀ type ∈ ctx.schema.possibleTypes scope, ∀ name base,
      (ctx.routed route₁ scope S₁ type name).Nonempty →
      ctx.structField? type name = some base →
      Agree route₁ route₂ base (ctx.routed route₁ scope S₁ type name)
        (ctx.routed route₂ scope S₂ type name)) →
    Agree route₁ route₂ scope S₁ S₂

variable {ctx} {route route₁ route₂ : Route} {scope : Name} {S S₁ S₂ : Set (List Query.Node)}
  {s : Selection}

theorem structField?_eq_some_iff {type name base : Name} :
    ctx.structField? type name = some base ↔ name ≠ Name.typename ∧
      ∃ field, ctx.schema.field? type name = some field ∧ field.type.base = base ∧
        ctx.schema.isStructLike base = true := by
  unfold structField?
  by_cases hname : name = Name.typename
  · simp [hname]
  · rw [if_neg hname, Option.bind_eq_some_iff]
    constructor
    · rintro ⟨field, hf, hbase⟩
      split at hbase
      · rename_i hlike
        cases hbase
        exact ⟨hname, field, hf, rfl, hlike⟩
      · cases hbase
    · rintro ⟨-, field, hf, rfl, hlike⟩
      exact ⟨field, hf, if_pos hlike⟩

theorem Collects.whole_iff (h : ctx.Collects route scope S s) : s = .whole ↔ [] ∈ S := by
  cases h with
  | whole hb => exact ⟨fun _ => hb, fun _ => rfl⟩
  | narrowed hb htype =>
    refine ⟨?_, fun h => absurd h hb⟩
    rintro rfl
    cases htype

/-- **What two routes select together, they select by agreeing.** -/
theorem Collects.agree (h₁ : ctx.Collects route₁ scope S₁ s) :
    ∀ {S₂}, ctx.Collects route₂ scope S₂ s → ctx.Agree route₁ route₂ scope S₁ S₂ := by
  induction h₁ with
  | whole hb =>
    intro S₂ h₂
    exact .whole hb (h₂.whole_iff.1 rfl)
  | @narrowed scope S₁ s hb htype htypes hnames _ _ ih =>
    intro S₂ h₂
    cases h₂ with
    | whole _ => cases htype
    | narrowed hb₂ _ _ hnames₂ _ hnested₂ =>
      refine .narrowed hb hb₂ (fun type hmem name => ?_) fun type hmem name base hne hfield => ?_
      · obtain ⟨fields, hfields⟩ := Option.isSome_iff_exists.1 ((htypes type).2 hmem)
        rw [← (hnames type fields hfields).2 name, (hnames₂ type fields hfields).2 name]
      · obtain ⟨fields, hfields⟩ := Option.isSome_iff_exists.1 ((htypes type).2 hmem)
        -- both routes select the same of the field, as there is one selection of it
        have hname := ((hnames type fields hfields).2 name).2 hne
        obtain ⟨⟨_, selection⟩, hsel, rfl⟩ := List.mem_map.1 hname
        exact ih type fields _ selection base hfields hsel hfield
          (hnested₂ type fields _ selection base hfields hsel hfield)

/-- **What one route selects, a route that agrees with it selects.** -/
theorem Collects.of_agree (h : ctx.Collects route₁ scope S₁ s) :
    ∀ {S₂}, ctx.Agree route₁ route₂ scope S₁ S₂ → ctx.Collects route₂ scope S₂ s := by
  induction h with
  | whole hb =>
    intro S₂ ha
    cases ha with
    | whole _ hb₂ => exact .whole hb₂
    | narrowed hn _ _ _ => exact absurd hb hn
  | @narrowed scope S₁ s hb htype htypes hnames hleaf _ ih =>
    intro S₂ ha
    cases ha with
    | whole hb₁ _ => exact absurd hb₁ hb
    | narrowed _ hb₂ hsame hnested =>
      refine .narrowed hb₂ htype htypes (fun type fields hfields => ?_) hleaf ?_
      · have hmem := (htypes type).1 (by rw [hfields]; rfl)
        refine ⟨(hnames type fields hfields).1, fun name => ?_⟩
        rw [(hnames type fields hfields).2 name, hsame type hmem name]
      · intro type fields name selection base hfields hsel hfield
        have hmem := (htypes type).1 (by rw [hfields]; rfl)
        have hne := ((hnames type fields hfields).2 name).1 (List.mem_map.2 ⟨_, hsel, rfl⟩)
        exact ih type fields name selection base hfields hsel hfield
          (hnested type hmem name base hne hfield)

end QueryContext

end StructQL
