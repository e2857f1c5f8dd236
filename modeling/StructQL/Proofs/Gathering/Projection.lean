import StructQL.Proofs.Gathering.Distinct
import StructQL.Proofs.Gathering.WellScoped
import StructQL.Proofs.Selection.Join
import StructQL.Proofs.Selection.Projection

/-!
# A merged selection serves what went into it

Two selections of one scope merge, and what they merge to covers both. So it shows of every coerced
value what either of them shows, but for the fields that the value lacks: where a selection of
fields is merged into the whole value, their nulls go.

* `keeps_of_mergeScope`: **what is merged keeps what each of both selections shows** of a coerced
  value, but the nulls that the whole value misses.
* `mergeScope_missesNull`: it does miss them.
-/

namespace StructQL.Merger

open QueryContext Selection

/-- **Selections of one scope merge, and what they merge to keeps what each of them shows** of a
coerced value of any type, at every depth, but the fields that the value lacks where the whole value
is shown. The selections may come from different documents, and be read with different values and
settings. -/
theorem keeps_of_mergeScope (first second : Merger) (hschema : second.schema = first.schema)
    (config : Config) (leaves : LeafCoercion) (root : String) (type : TypeRef) (v : Json)
    (c : CoercedValue)
    (hc : InputCoercer.coerce ⟨first.schema.schema, config, leaves⟩ root type v = .ok c)
    (scope : Name) (A B : List (List Query.Node)) (a b : Selection)
    (ha : first.mergeScope scope A = .ok a) (hb : second.mergeScope scope B = .ok b) :
    ∃ merged, a.merge b = .ok merged ∧
      Keeps .wholeValue c (a.project c) (merged.project c) ∧
      Keeps .wholeValue c (b.project c) (merged.project c) := by
  have hcoerces :=
    (InputCoercer.coerce_ok_iff_coerces first.schema.wellShaped root type v c).1 hc
  -- the form of a selection is a matter of the schema, which both share
  have hcontext : (first.context []).schema = (second.context []).schema :=
    congrArg ValidSchema.schema hschema.symm
  have hscoped : (first.context []).Scoped scope b :=
    (scoped_of_mergeScope hb).of_schema hcontext
  obtain ⟨merged, hmerge, -⟩ := (scoped_of_mergeScope ha).exists_merge hscoped
  obtain ⟨-, hjoin⟩ := isJoin_of_merge (distinct_of_mergeScope ha) (distinct_of_mergeScope hb) hmerge
  exact ⟨merged, hmerge, Covers.keeps hcoerces.distinct hjoin.left,
    Covers.keeps hcoerces.distinct hjoin.right⟩

theorem type?_sharedField_A : sharedField.schema.schema.type? ⟨"A", .refl true⟩ =
    some (.struct ⟨⟨"A", .refl true⟩, ⟨[⟨⟨"x", .refl true⟩, .named Name.string false, []⟩,
      ⟨⟨"y", .refl true⟩, .named Name.string false, []⟩], by decide⟩⟩) := rfl

theorem type?_sharedField_U : sharedField.schema.schema.type? ⟨"U", .refl true⟩ =
    some (.structUnion ⟨⟨"U", .refl true⟩, [⟨"A", .refl true⟩, ⟨"B", .refl true⟩]⟩) := rfl

/-- An object of `A` with a text as `y` is a value of `U`. -/
theorem coerces_yOfA (text : String) :
    InputCoercer.Coerces ⟨sharedField.schema.schema, {}, .builtIn⟩ (.named ⟨"U", .refl true⟩ false)
      (.object [("__typename", .string "A"), ("y", .string text)])
      (.struct ⟨"A", .refl true⟩ [(⟨"y", .refl true⟩, .leaf (.string text))]) := by
  refine .member type?_sharedField_U List.mem_cons_self rfl
    (.struct type?_sharedField_A ?_ rfl ?_ ?_ ?_)
  · rintro v ⟨⟩
    rfl
  · intro field v value hf hv hvalue
    obtain ⟨hname, rfl⟩ : field.name = ⟨"y", .refl true⟩ ∧ value = .leaf (.string text) := by
      simpa using hvalue
    obtain rfl | rfl : field = _ ∨ field = _ := by simpa using hf
    · exact absurd hname (by decide)
    · cases hv
      exact .scalar (by simp) rfl rfl
  · simp [TypeRef.isNonNull]
  · simp [InputCoercer.Known, Name.typename]

/-- A value of `A` without the field `x`. -/
def withoutXOfA : CoercedValue :=
  .struct ⟨"A", .refl true⟩ [(⟨"y", .refl true⟩, .leaf (.string "v"))]

theorem coerce_withoutXOfA :
    InputCoercer.coerce ⟨sharedField.schema.schema, {}, .builtIn⟩ "input"
      (.named ⟨"U", .refl true⟩ false)
      (.object [("__typename", .string "A"), ("y", .string "v")]) = .ok withoutXOfA :=
  (InputCoercer.coerce_ok_iff_coerces sharedField.schema.wellShaped _ _ _ _).2 (coerces_yOfA "v")

/-- The selection `... on A { x }` merges with the whole value of `U`, which keeps what it shows but
the null of `x`. -/
theorem keeps_withoutXOfA :
    ∃ merged, (membersOfU [(⟨"x", .refl true⟩, .whole)] []).merge .whole = .ok merged ∧
      Keeps .wholeValue withoutXOfA
        ((membersOfU [(⟨"x", .refl true⟩, .whole)] []).project withoutXOfA)
        (merged.project withoutXOfA) ∧
      Keeps .wholeValue withoutXOfA (whole.project withoutXOfA) (merged.project withoutXOfA) :=
  keeps_of_mergeScope sharedField sharedField rfl {} .builtIn "input"
    (.named ⟨"U", .refl true⟩ false) (.object [("__typename", .string "A"), ("y", .string "v")])
    withoutXOfA coerce_withoutXOfA ⟨"U", .refl true⟩ [onA] [[]] _ _ (by cbv) (by cbv)

/-- **The whole value misses a null that was shown**: of a value of `A` without `x`, the selection
`... on A { x }` shows this field as null, and once it is merged with the whole value there is
no `x`. -/
theorem mergeScope_missesNull :
    InputCoercer.coerce ⟨sharedField.schema.schema, {}, .builtIn⟩ "input"
        (.named ⟨"U", .refl true⟩ false)
        (.object [("__typename", .string "A"), ("y", .string "v")]) = .ok withoutXOfA ∧
      sharedField.mergeScope ⟨"U", .refl true⟩ [onA] =
        .ok (membersOfU [(⟨"x", .refl true⟩, .whole)] []) ∧
      sharedField.mergeScope ⟨"U", .refl true⟩ [[]] = .ok .whole ∧
      (membersOfU [(⟨"x", .refl true⟩, .whole)] []).merge .whole = .ok .whole ∧
      ¬ Keeps .never withoutXOfA
        ((membersOfU [(⟨"x", .refl true⟩, .whole)] []).project withoutXOfA)
        (whole.project withoutXOfA) := by
  refine ⟨coerce_withoutXOfA, by cbv, by cbv, by with_unfolding_all rfl, ?_⟩
  have hshown : (membersOfU [(⟨"x", .refl true⟩, .whole)] []).project withoutXOfA =
      .object [("x", .null)] := by
    have hx : shown ⟨"A", .refl true⟩ [(⟨"y", .refl true⟩, .leaf (.string "v"))] ⟨"x", .refl true⟩
        .whole = .null := shown_of_lookup_eq_none (by decide) rfl
    rw [withoutXOfA, project_struct (by simp [membersOfU]), projectFields_eq_map, ← hx]
    rfl
  have hwhole : whole.project withoutXOfA =
      .object [("__typename", .string "A"), ("y", .string "v")] := by
    rw [withoutXOfA, project_whole, CoercedValue.toJson_struct, CoercedValue.entries,
      CoercedValue.fieldsToJson_eq_map, List.map_singleton, CoercedValue.toJson]
    rfl
  rw [hshown, hwhole]
  intro h
  have hkept := h.isSome_lookup (show [("x", Json.null)].lookup "x" = some .null from rfl)
  revert hkept
  decide

end StructQL.Merger
