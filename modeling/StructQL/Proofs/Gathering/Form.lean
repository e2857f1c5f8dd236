import StructQL.Proofs.Gathering.Collects
import StructQL.Proofs.Selection.Merge

/-!
# Selections of one form

A selection of a struct lists fields, and one of a struct union lists fields of each member. Selections
of one form are merged and compared struct by struct.

* `HasForm`: one set of fields for a struct, and one for each member of a struct union.
* `HasForm.absorb`: **selections of one form merge to that form** if their fields merge.
* `HasForm.same`: they are the same if their fields are.
* `hasForm_scopeSelection`: what is selected of a scope has its form.
-/

namespace StructQL

/-- **The form of a selection in a scope**: the fields of the struct, or those of each member of
the struct union, in the order of the schema. -/
inductive HasForm (schema : Schema) : Name → Selection → Prop where
  | struct {scope : Name} {fields : List (Name × Selection)} :
    schema.isStructLike scope = true → schema.structUnion? scope = none →
    HasForm schema scope (.struct ⟨scope, fields⟩)
  | union {scope : Name} {union : UnionType} {members : List (Name × FieldSet Selection)} :
    schema.structUnion? scope = some union →
    members.map Prod.fst = distinctNames union.members →
    (∀ member set, (member, set) ∈ members → set.typeName = member) →
    HasForm schema scope (.union scope members)

section

open Selection

variable {schema : Schema} {scope : Name} {a b : Selection}

theorem fieldsOf?_struct {scope type : Name} {fields found : List (Name × Selection)} :
    (Selection.struct ⟨scope, fields⟩).fieldsOf? type = some found ↔
      scope = type ∧ fields = found := by
  change (if scope = type then some fields else none) = some found ↔ _
  split <;> simp_all

theorem fieldsOf?_union {scope type : Name} {members : List (Name × FieldSet Selection)}
    {found : List (Name × Selection)} :
    (Selection.union scope members).fieldsOf? type = some found ↔
      ∃ set, members.lookup type = some set ∧ set.fields = found := by
  rw [Selection.fieldsOf?, Option.map_eq_some_iff]

/-- Members of one struct union have their fields merged, member by member. -/
theorem absorbPairs_members {l m : List (Name × FieldSet Selection)}
    (hkeys : l.map Prod.fst = m.map Prod.fst) (hnd : (m.map Prod.fst).Nodup)
    (hl : ∀ member set, (member, set) ∈ l → set.typeName = member)
    (hm : ∀ member set, (member, set) ∈ m → set.typeName = member)
    (h : ∀ member x y, l.lookup member = some x → m.lookup member = some y →
      (absorbPairs absorb x.fields y.fields).2 = none) :
    (absorbPairs absorbSet l m).2 = none ∧
      (absorbPairs absorbSet l m).1.map Prod.fst = m.map Prod.fst ∧
      ∀ member set, (absorbPairs absorbSet l m).1.lookup member = some set ↔
        ∃ x y, l.lookup member = some x ∧ m.lookup member = some y ∧
          set = ⟨member, (absorbPairs absorb x.fields y.fields).1⟩ := by
  -- the sets of a member are both of that member
  have hset : ∀ member x y, l.lookup member = some x → m.lookup member = some y →
      absorbSet x y = (⟨member, (absorbPairs absorb x.fields y.fields).1⟩,
        (absorbPairs absorb x.fields y.fields).2) := by
    intro member x y hx hy
    obtain ⟨_, x⟩ := x
    obtain ⟨_, y⟩ := y
    obtain rfl := hl _ _ (Pairs.mem_of_lookup hx)
    obtain rfl := hm _ _ (Pairs.mem_of_lookup hy)
    exact absorbSet_self _ x y
  have hnone : (absorbPairs absorbSet l m).2 = none :=
    (faults_absorbPairs_iff hnd).2 fun member x y hx hy => by
      rw [hset member x y hx hy]
      exact h member x y hx hy
  refine ⟨hnone, ?_, fun member set => ?_⟩
  · have hnew : (m.map Prod.fst).filter (· ∉ m.map Prod.fst) = [] :=
      List.filter_eq_nil_iff.2 fun key hkey => by simpa using hkey
    rw [map_fst_absorbPairs hnd hnone, hkeys, hnew, List.append_nil]
  · rw [lookup_absorbPairs hnd hnone]
    cases hx : l.lookup member with
    | none =>
      rw [Pairs.lookup_eq_none_iff, hkeys, ← Pairs.lookup_eq_none_iff] at hx
      simp [hx]
    | some x =>
      cases hy : m.lookup member with
      | none =>
        rw [Pairs.lookup_eq_none_iff, ← hkeys, ← Pairs.lookup_eq_none_iff, hx] at hy
        cases hy
      | some y =>
        simp [hset member x y hx hy, eq_comm]

theorem HasForm.typeName? (h : HasForm schema scope a) : a.typeName? = some scope := by
  cases h <;> rfl

theorem HasForm.isSome_fieldsOf? (h : HasForm schema scope a) {type : Name} :
    (a.fieldsOf? type).isSome = true ↔ type ∈ schema.possibleTypes scope := by
  rw [Option.isSome_iff_exists]
  cases h with
  | struct hs hunion =>
    rw [Schema.possibleTypes_of_struct hs hunion, List.mem_singleton]
    simp [fieldsOf?_struct, @eq_comm _ type]
  | @union _ members hunion hkeys _ =>
    rw [Schema.possibleTypes_of_structUnion hunion, ← hkeys]
    simp only [fieldsOf?_union]
    constructor
    · rintro ⟨_, set, hset, rfl⟩
      exact List.mem_map.2 ⟨_, Pairs.mem_of_lookup hset, rfl⟩
    · intro hmem
      cases hset : members.lookup type with
      | none => exact absurd hmem (Pairs.lookup_eq_none_iff.1 hset)
      | some set => exact ⟨_, set, rfl, rfl⟩

/-- Selections of one form are both of the struct, or list the same members of the union. -/
theorem HasForm.pair (ha : HasForm schema scope a) (hb : HasForm schema scope b) :
    (∃ l m, a = .struct ⟨scope, l⟩ ∧ b = .struct ⟨scope, m⟩ ∧
      schema.isStructLike scope = true ∧ schema.structUnion? scope = none) ∨
    ∃ union l m, a = .union scope l ∧ b = .union scope m ∧
      schema.structUnion? scope = some union ∧ l.map Prod.fst = distinctNames union.members ∧
      m.map Prod.fst = distinctNames union.members ∧
      (∀ member set, (member, set) ∈ l → set.typeName = member) ∧
      ∀ member set, (member, set) ∈ m → set.typeName = member := by
  cases ha with
  | @struct l hs hnone =>
    cases hb with
    | @struct m _ _ => exact .inl ⟨l, m, rfl, rfl, hs, hnone⟩
    | union hunion _ _ =>
      rw [hnone] at hunion
      cases hunion
  | @union union l hunion hl hltype =>
    cases hb with
    | struct _ hnone =>
      rw [hunion] at hnone
      cases hnone
    | @union other m hother hm hmtype =>
      obtain rfl : union = other := Option.some.inj (hunion.symm.trans hother)
      exact .inr ⟨union, l, m, rfl, rfl, hunion, hl, hm, hltype, hmtype⟩

/-- **Selections of one form merge** if their fields do, struct by struct. -/
theorem HasForm.absorb (ha : HasForm schema scope a) (hb : HasForm schema scope b)
    (h : ∀ type x y, a.fieldsOf? type = some x → b.fieldsOf? type = some y →
      (absorbPairs absorb x y).2 = none) :
    (a.absorb b).2 = none ∧ HasForm schema scope (a.absorb b).1 ∧
      ∀ type fields, (a.absorb b).1.fieldsOf? type = some fields ↔
        ∃ x y, a.fieldsOf? type = some x ∧ b.fieldsOf? type = some y ∧
          fields = (absorbPairs absorb x y).1 := by
  obtain ⟨l, m, rfl, rfl, hs, hnone⟩ | ⟨union, l, m, rfl, rfl, hunion, hl, hm, hltype, hmtype⟩ :=
    ha.pair hb
  · rw [absorb_struct]
    refine ⟨h scope l m (fieldsOf?_struct.2 ⟨rfl, rfl⟩) (fieldsOf?_struct.2 ⟨rfl, rfl⟩),
      .struct hs hnone, fun type fields => ?_⟩
    simp only [fieldsOf?_struct]
    constructor
    · rintro ⟨rfl, rfl⟩
      exact ⟨l, m, ⟨rfl, rfl⟩, ⟨rfl, rfl⟩, rfl⟩
    · rintro ⟨_, _, ⟨rfl, rfl⟩, ⟨-, rfl⟩, rfl⟩
      exact ⟨rfl, rfl⟩
  · have hnd : (m.map Prod.fst).Nodup := hm ▸ nodup_distinctNames _
    obtain ⟨hmerged, hkeys, hlookup⟩ := absorbPairs_members (hl.trans hm.symm) hnd hltype hmtype
      fun member x y hx hy => h member x.fields y.fields
        (fieldsOf?_union.2 ⟨x, hx, rfl⟩) (fieldsOf?_union.2 ⟨y, hy, rfl⟩)
    rw [absorb_union]
    refine ⟨hmerged, .union hunion (hkeys.trans hm) fun member set hset => ?_,
      fun type fields => ?_⟩
    · obtain ⟨_, _, -, -, rfl⟩ :=
        (hlookup member set).1 (Pairs.lookup_of_mem (hkeys ▸ hnd) hset)
      rfl
    · simp only [fieldsOf?_union, hlookup]
      constructor
      · rintro ⟨_, ⟨x, y, hx, hy, rfl⟩, rfl⟩
        exact ⟨_, _, ⟨x, hx, rfl⟩, ⟨y, hy, rfl⟩, rfl⟩
      · rintro ⟨_, _, ⟨x, hx, rfl⟩, ⟨y, hy, rfl⟩, rfl⟩
        exact ⟨_, ⟨x, y, hx, hy, rfl⟩, rfl⟩

/-- **Selections of one form are the same** if their fields are, struct by struct. -/
theorem HasForm.same (ha : HasForm schema scope a) (hb : HasForm schema scope b)
    (h : ∀ type x y, a.fieldsOf? type = some x → b.fieldsOf? type = some y →
      x.length = y.length ∧ ∀ p ∈ x, ∃ t, y.lookup p.1 = some t ∧ p.2.same t = true) :
    a.same b = true := by
  obtain ⟨l, m, rfl, rfl, -, -⟩ | ⟨union, l, m, rfl, rfl, -, hl, hm, hltype, hmtype⟩ :=
    ha.pair hb
  · rw [Selection.same, sameSet_iff]
    exact ⟨rfl, h scope l m (fieldsOf?_struct.2 ⟨rfl, rfl⟩) (fieldsOf?_struct.2 ⟨rfl, rfl⟩)⟩
  · have hlength : l.length = m.length := by
      simpa using congrArg List.length (hl.trans hm.symm)
    have hnd : (l.map Prod.fst).Nodup := hl ▸ nodup_distinctNames _
    rw [Selection.same, Bool.and_eq_true, Bool.and_eq_true, sameMembers_iff]
    refine ⟨⟨by simp, by simpa using hlength⟩, ?_⟩
    rintro ⟨member, x⟩ hx
    -- both list the same members
    have hmem : member ∈ m.map Prod.fst := by
      rw [hm, ← hl]
      exact List.mem_map.2 ⟨_, hx, rfl⟩
    obtain ⟨⟨_, y⟩, hy, rfl⟩ := List.mem_map.1 hmem
    have hlookup := Pairs.lookup_of_mem (hm ▸ nodup_distinctNames _) hy
    refine ⟨y, hlookup, sameSet_iff.2 ⟨?_, ?_⟩⟩
    · rw [hltype _ _ hx, hmtype _ _ hy]
    · exact h _ _ _ (fieldsOf?_union.2 ⟨x, Pairs.lookup_of_mem hnd hx, rfl⟩)
        (fieldsOf?_union.2 ⟨y, hlookup, rfl⟩)

end

theorem QueryContext.hasForm_scopeSelection {ctx : QueryContext} {scope : Name}
    {gather : Name → List Site → Checked (Option Selection)} {occurrences : List Occurrence}
    (hs : ctx.schema.isStructLike scope = true) :
    HasForm ctx.schema scope (ctx.scopeSelection gather scope occurrences).value := by
  unfold scopeSelection
  cases hunion : ctx.schema.structUnion? scope with
  | none => exact .struct hs hunion
  | some union =>
    refine .union hunion ?_ fun member set hset => ?_
    · simp [Function.comp_def]
    · simp only [Checked.value_bind, Checked.value_pure, Checked.value_each] at hset
      obtain ⟨m, -, he⟩ := List.mem_map.1 hset
      cases he
      rfl

end StructQL
