import StructQL.Proofs.SDL.Assembly

/-!
# Flaws of definitions

A list of definitions is gone through from its front, and what stood before a definition decides
what is wrong with it: its name was taken, or one of its fields stands twice. So flaws are told
apart from the places where they are found.

* `walk`: what the items of a list add, each after those before it.
* `Flaw`, `Spot`: what may be wrong, and where it is found. Fields are left for a second pass.
* `HasFlaw`: **what is wrong somewhere in a list of definitions.**
* `found`: what is found, and `mem_found`: it is what is wrong.
* `pairwise_found`: it is found in the order of its spots.
-/

namespace StructQL.SDL

open List

/-! ## Walks -/

section Walk

variable {α β : Type} {step : List α → α → List β} {l : List α}

/-- **What the items of a list add**, each after those before it. -/
def walk (step : List α → α → List β) (l : List α) : List β := go [] l
where
  go (done : List α) : List α → List β
    | [] => []
    | a :: rest => step done a ++ go (done ++ [a]) rest

theorem walk_concat (step : List α → α → List β) (l : List α) (a : α) :
    walk step (l ++ [a]) = walk step l ++ step l a := by
  suffices hgo : ∀ done, walk.go step done (l ++ [a]) = walk.go step done l ++ step (done ++ l) a from
    hgo []
  induction l with
  | nil => simp [walk.go]
  | cons b rest ih =>
    intro done
    rw [List.cons_append, walk.go, ih, walk.go, List.append_assoc, List.append_assoc,
      List.singleton_append]

theorem mem_walk {b : β} :
    b ∈ walk step l ↔ ∃ done a rest, l = done ++ a :: rest ∧ b ∈ step done a := by
  induction l using List.reverseRecOn with
  | nil => simp [walk, walk.go]
  | append_singleton l a ih =>
    rw [walk_concat, List.mem_append, ih]
    constructor
    · rintro (⟨done, c, rest, rfl, hb⟩ | hb)
      · exact ⟨done, c, rest ++ [a], by simp, hb⟩
      · exact ⟨l, a, [], rfl, hb⟩
    · rintro ⟨done, c, rest, hl, hb⟩
      rcases List.eq_nil_or_concat rest with rfl | ⟨before, last, rfl⟩
      · obtain ⟨rfl, hac⟩ := List.append_inj' hl rfl
        obtain rfl : a = c := by simpa using hac
        exact .inr hb
      · rw [List.concat_eq_append, ← List.cons_append, ← List.append_assoc] at hl
        obtain ⟨rfl, -⟩ := List.append_inj' hl rfl
        exact .inl ⟨done, c, before, rfl, hb⟩

/-- **What is added is in order** if what each item adds is so, and stands before what is added
later. -/
theorem pairwise_walk {R : β → β → Prop} (hstep : ∀ done a, (step done a).Pairwise R)
    (hlater : ∀ done a done' a' b b', done.length < done'.length → b ∈ step done a →
      b' ∈ step done' a' → R b b') : (walk step l).Pairwise R := by
  induction l using List.reverseRecOn with
  | nil => simp [walk, walk.go]
  | append_singleton l a ih =>
    rw [walk_concat, List.pairwise_append]
    refine ⟨ih, hstep l a, ?_⟩
    intro b hb b' hb'
    obtain ⟨done, c, rest, rfl, hc⟩ := mem_walk.1 hb
    exact hlater done c _ a b b' (by simp) hc hb'

end Walk

/-! ## What may be wrong -/

/-- **What may be wrong with definitions**: a name that was taken before, or an operation that does
not exist. -/
inductive Flaw where
  | type (name : Name)
  | directive (name : Name)
  | operation (kind : Name)
  | field (typeName fieldName : Name)
  deriving DecidableEq

/-- The fault that says so. -/
def Flaw.fault : Flaw → Fault
  | type name => .duplicateTypeDefinition name
  | directive name => .invalidGraphQL s!"There can be only one directive named \"@{name}\""
  | operation kind => .invalidGraphQL s!"Unknown root operation type \"{kind}\""
  | field typeName fieldName => .duplicateFieldDefinition typeName fieldName

/-- Where a flaw is found: in which definition, and at which of its fields or operations. Fields are
left for a second pass. -/
structure Spot where
  pass : Nat
  definition : Nat
  item : Nat

/-- The order in which the spots are come upon. -/
def Spot.Before (p q : Spot) : Prop :=
  p.pass < q.pass ∨ p.pass = q.pass ∧
    (p.definition < q.definition ∨ p.definition = q.definition ∧ p.item < q.item)

/-- **What is wrong with a definition**, given those before it. -/
inductive IsFlaw (done : List Definition) (d : Definition) : Spot → Flaw → Prop where
  /-- The type was defined before. -/
  | type {name : Name} {earlier : Definition} :
    d.typeName? = some name → earlier ∈ done → earlier.typeName? = some name →
    IsFlaw done d ⟨0, done.length, 0⟩ (.type name)
  /-- The directive was defined before. -/
  | directive {directive other : DirectiveDefinition} :
    d.directive? = some directive → .directive other ∈ done → other.name = directive.name →
    IsFlaw done d ⟨0, done.length, 0⟩ (.directive directive.name)
  /-- There is no such operation. -/
  | operation {before after : List (Name × Name)} {kind type : Name} :
    d.operations? = some (before ++ (kind, type) :: after) →
    kind.text ∉ ["query", "mutation", "subscription"] →
    IsFlaw done d ⟨0, done.length, before.length⟩ (.operation kind)
  /-- The field stands before in the same definition. -/
  | field {name : Name} {before after : List Field} {field earlier : Field} :
    d.typeName? = some name → d.fields = before ++ field :: after → earlier ∈ before →
    earlier.name = field.name →
    IsFlaw done d ⟨1, done.length, before.length⟩ (.field name field.name)

/-- **What is wrong somewhere in a list of definitions.** -/
def HasFlaw (defs : List Definition) (spot : Spot) (flaw : Flaw) : Prop :=
  ∃ done d rest, defs = done ++ d :: rest ∧ IsFlaw done d spot flaw

/-! ## What is found -/

/-- The operations that do not exist, of a schema definition in some place. -/
def unknownOperations (place : Nat) : List (Name × Name) → List (Spot × Flaw) :=
  walk fun before operation =>
    if operation.1.text ∈ ["query", "mutation", "subscription"] then []
    else [(⟨0, place, before.length⟩, .operation operation.1)]

/-- The fields that stand again, of a definition in some place. -/
def fieldsAgain (place : Nat) (name : Name) : List Field → List (Spot × Flaw) :=
  walk fun before field =>
    if field.name ∈ before.map Field.name then [(⟨1, place, before.length⟩, .field name field.name)]
    else []

/-- The type of a definition, if it was defined before. -/
def typeAgain (done : List Definition) (d : Definition) : List (Spot × Flaw) :=
  match d.typeName? with
  | none => []
  | some name =>
    if name ∈ done.filterMap Definition.typeName? then [(⟨0, done.length, 0⟩, .type name)] else []

/-- The directive of a definition, if it was defined before. -/
def directiveAgain (done : List Definition) (d : Definition) : List (Spot × Flaw) :=
  match d.directive? with
  | none => []
  | some directive =>
    if directive.name ∈ (done.filterMap Definition.directive?).map DirectiveDefinition.name then
      [(⟨0, done.length, 0⟩, .directive directive.name)]
    else []

/-- What is found in a definition when it is added. -/
def firstPass (done : List Definition) (d : Definition) : List (Spot × Flaw) :=
  typeAgain done d ++ directiveAgain done d ++
    (d.operations?.map (unknownOperations done.length)).getD []

/-- What is found among its fields. -/
def secondPass (done : List Definition) (d : Definition) : List (Spot × Flaw) :=
  (d.typeName?.map fun name => fieldsAgain done.length name d.fields).getD []

/-- **What is found in a list of definitions**, in the order in which it is reported. -/
def found (defs : List Definition) : List (Spot × Flaw) := walk firstPass defs ++ walk secondPass defs

section

variable {defs done : List Definition} {d : Definition} {spot : Spot} {flaw : Flaw} {place : Nat}
  {name : Name}

theorem mem_unknownOperations {operations : List (Name × Name)} :
    (spot, flaw) ∈ unknownOperations place operations ↔
      ∃ before kind type after, operations = before ++ (kind, type) :: after ∧
        kind.text ∉ ["query", "mutation", "subscription"] ∧
        spot = ⟨0, place, before.length⟩ ∧ flaw = .operation kind := by
  simp only [unknownOperations, mem_walk, List.mem_ite_nil_left, List.mem_singleton, Prod.mk.injEq]
  constructor
  · rintro ⟨before, ⟨kind, type⟩, after, heq, hunknown, hspot, hflaw⟩
    exact ⟨before, kind, type, after, heq, hunknown, hspot, hflaw⟩
  · rintro ⟨before, kind, type, after, heq, hunknown, hspot, hflaw⟩
    exact ⟨before, (kind, type), after, heq, hunknown, hspot, hflaw⟩

theorem mem_fieldsAgain {fields : List Field} :
    (spot, flaw) ∈ fieldsAgain place name fields ↔
      ∃ before field after, fields = before ++ field :: after ∧
        (∃ earlier ∈ before, earlier.name = field.name) ∧
        spot = ⟨1, place, before.length⟩ ∧ flaw = .field name field.name := by
  simp only [fieldsAgain, mem_walk, List.mem_ite_nil_right, List.mem_singleton, Prod.mk.injEq,
    List.mem_map]

theorem mem_typeAgain :
    (spot, flaw) ∈ typeAgain done d ↔ ∃ name earlier, d.typeName? = some name ∧
      earlier ∈ done ∧ earlier.typeName? = some name ∧ spot = ⟨0, done.length, 0⟩ ∧
      flaw = .type name := by
  unfold typeAgain
  cases d.typeName? with
  | none => simp
  | some name =>
    simp only [List.mem_ite_nil_right, List.mem_singleton, Prod.mk.injEq, List.mem_filterMap]
    constructor
    · rintro ⟨⟨earlier, hearlier, hsame⟩, hspot, hflaw⟩
      exact ⟨name, earlier, rfl, hearlier, hsame, hspot, hflaw⟩
    · rintro ⟨_, earlier, hname, hearlier, hsame, hspot, hflaw⟩
      obtain rfl := Option.some.inj hname
      exact ⟨⟨earlier, hearlier, hsame⟩, hspot, hflaw⟩

theorem mem_directiveNames :
    name ∈ (done.filterMap Definition.directive?).map DirectiveDefinition.name ↔
      ∃ other, .directive other ∈ done ∧ other.name = name := by
  rw [List.mem_map]
  constructor
  · rintro ⟨other, hother, rfl⟩
    obtain ⟨d, hd, hstands⟩ := List.mem_filterMap.1 hother
    cases d with
    | directive directive =>
      obtain rfl := Option.some.inj hstands
      exact ⟨_, hd, rfl⟩
    | _ => cases hstands
  · rintro ⟨other, hother, rfl⟩
    exact ⟨other, List.mem_filterMap.2 ⟨_, hother, rfl⟩, rfl⟩

theorem mem_directiveAgain :
    (spot, flaw) ∈ directiveAgain done d ↔ ∃ directive other, d.directive? = some directive ∧
      .directive other ∈ done ∧ other.name = directive.name ∧ spot = ⟨0, done.length, 0⟩ ∧
      flaw = .directive directive.name := by
  unfold directiveAgain
  cases d.directive? with
  | none => simp
  | some directive =>
    simp only [List.mem_ite_nil_right, List.mem_singleton, Prod.mk.injEq, mem_directiveNames]
    constructor
    · rintro ⟨⟨other, hother, hsame⟩, hspot, hflaw⟩
      exact ⟨directive, other, rfl, hother, hsame, hspot, hflaw⟩
    · rintro ⟨_, other, hdirective, hother, hsame, hspot, hflaw⟩
      obtain rfl := Option.some.inj hdirective
      exact ⟨⟨other, hother, hsame⟩, hspot, hflaw⟩

theorem mem_firstPass :
    (spot, flaw) ∈ firstPass done d ↔ IsFlaw done d spot flaw ∧ spot.pass = 0 := by
  have hoperations : (spot, flaw) ∈ (d.operations?.map (unknownOperations done.length)).getD [] ↔
      ∃ operations, d.operations? = some operations ∧
        (spot, flaw) ∈ unknownOperations done.length operations := by
    cases d.operations? <;> simp
  rw [firstPass, List.mem_append, List.mem_append, hoperations, mem_typeAgain, mem_directiveAgain]
  constructor
  · rintro ((⟨name, earlier, hname, hearlier, hsame, rfl, rfl⟩ |
      ⟨directive, other, hdirective, hother, hsame, rfl, rfl⟩) | ⟨operations, hstands, hmem⟩)
    · exact ⟨.type hname hearlier hsame, rfl⟩
    · exact ⟨.directive hdirective hother hsame, rfl⟩
    · obtain ⟨before, kind, type, after, rfl, hunknown, rfl, rfl⟩ := mem_unknownOperations.1 hmem
      exact ⟨.operation hstands hunknown, rfl⟩
  · rintro ⟨hflaw, hpass⟩
    cases hflaw with
    | type hname hearlier hsame => exact .inl (.inl ⟨_, _, hname, hearlier, hsame, rfl, rfl⟩)
    | directive hdirective hother hsame =>
      exact .inl (.inr ⟨_, _, hdirective, hother, hsame, rfl, rfl⟩)
    | operation hstands hunknown =>
      exact .inr ⟨_, hstands, mem_unknownOperations.2 ⟨_, _, _, _, rfl, hunknown, rfl, rfl⟩⟩
    | field => cases hpass

theorem mem_secondPass :
    (spot, flaw) ∈ secondPass done d ↔ IsFlaw done d spot flaw ∧ spot.pass = 1 := by
  have hfields : (spot, flaw) ∈ secondPass done d ↔ ∃ name, d.typeName? = some name ∧
      (spot, flaw) ∈ fieldsAgain done.length name d.fields := by
    unfold secondPass
    cases d.typeName? <;> simp
  rw [hfields]
  constructor
  · rintro ⟨name, hname, hmem⟩
    obtain ⟨before, field, after, heq, ⟨earlier, hearlier, hsame⟩, rfl, rfl⟩ :=
      mem_fieldsAgain.1 hmem
    exact ⟨.field hname heq hearlier hsame, rfl⟩
  · rintro ⟨hflaw, hpass⟩
    cases hflaw with
    | field hname heq hearlier hsame =>
      exact ⟨_, hname, mem_fieldsAgain.2 ⟨_, _, _, heq, ⟨_, hearlier, hsame⟩, rfl, rfl⟩⟩
    | _ => cases hpass

theorem IsFlaw.pass (h : IsFlaw done d spot flaw) : spot.pass = 0 ∨ spot.pass = 1 := by
  cases h <;> simp

theorem IsFlaw.definition (h : IsFlaw done d spot flaw) : spot.definition = done.length := by
  cases h <;> rfl

/-- **What is found in a list of definitions is what is wrong somewhere in it.** -/
theorem mem_found : (spot, flaw) ∈ found defs ↔ HasFlaw defs spot flaw := by
  simp only [found, List.mem_append, mem_walk, mem_firstPass, mem_secondPass]
  constructor
  · rintro (⟨done, d, rest, heq, hflaw, -⟩ | ⟨done, d, rest, heq, hflaw, -⟩)
    · exact ⟨done, d, rest, heq, hflaw⟩
    · exact ⟨done, d, rest, heq, hflaw⟩
  · rintro ⟨done, d, rest, heq, hflaw⟩
    rcases hflaw.pass with hpass | hpass
    · exact .inl ⟨done, d, rest, heq, hflaw, hpass⟩
    · exact .inr ⟨done, d, rest, heq, hflaw, hpass⟩

/-! ## The order in which it is found -/

/-- Of two things that were found the first was found before. -/
def FoundBefore (x y : Spot × Flaw) : Prop := x.1.Before y.1

theorem pairwise_ite_singleton {c : Prop} [Decidable c] (x : Spot × Flaw) :
    (if c then [x] else []).Pairwise FoundBefore := by
  split <;> simp

theorem pairwise_unknownOperations (operations : List (Name × Name)) :
    (unknownOperations place operations).Pairwise FoundBefore := by
  refine pairwise_walk ?_ ?_
  · intro before operation
    split <;> simp
  · rintro before _ before' _ ⟨spot, flaw⟩ ⟨spot', flaw'⟩ hlength hmem hmem'
    simp only [List.mem_ite_nil_left, List.mem_singleton, Prod.mk.injEq] at hmem hmem'
    obtain ⟨-, rfl, -⟩ := hmem
    obtain ⟨-, rfl, -⟩ := hmem'
    exact .inr ⟨rfl, .inr ⟨rfl, hlength⟩⟩

theorem pairwise_fieldsAgain (fields : List Field) :
    (fieldsAgain place name fields).Pairwise FoundBefore := by
  refine pairwise_walk (fun before field => pairwise_ite_singleton _) ?_
  rintro before _ before' _ ⟨spot, flaw⟩ ⟨spot', flaw'⟩ hlength hmem hmem'
  simp only [List.mem_ite_nil_right, List.mem_singleton, Prod.mk.injEq] at hmem hmem'
  obtain ⟨-, rfl, -⟩ := hmem
  obtain ⟨-, rfl, -⟩ := hmem'
  exact .inr ⟨rfl, .inr ⟨rfl, hlength⟩⟩

theorem pairwise_firstPass (done : List Definition) (d : Definition) :
    (firstPass done d).Pairwise FoundBefore := by
  have htype : (typeAgain done d).Pairwise FoundBefore := by
    unfold typeAgain
    split
    · exact .nil
    · exact pairwise_ite_singleton _
  have hdirective : (directiveAgain done d).Pairwise FoundBefore := by
    unfold directiveAgain
    split
    · exact .nil
    · exact pairwise_ite_singleton _
  -- a definition is of one kind only
  cases d with
  | schema operations => exact pairwise_unknownOperations operations
  | directive directive => simpa [firstPass, typeAgain, Definition.typeName?,
      Definition.operations?] using hdirective
  | _ => simpa [firstPass, directiveAgain, Definition.directive?, Definition.operations?] using htype

theorem pairwise_secondPass (done : List Definition) (d : Definition) :
    (secondPass done d).Pairwise FoundBefore := by
  unfold secondPass
  cases d.typeName? with
  | none => exact .nil
  | some name => exact pairwise_fieldsAgain d.fields

/-- **What is found is in the order of its spots.** -/
theorem pairwise_found (defs : List Definition) : (found defs).Pairwise FoundBefore := by
  rw [found, List.pairwise_append]
  refine ⟨pairwise_walk pairwise_firstPass ?_, pairwise_walk pairwise_secondPass ?_, ?_⟩
  · rintro done d done' d' ⟨spot, flaw⟩ ⟨spot', flaw'⟩ hlength hmem hmem'
    obtain ⟨hflaw, hpass⟩ := mem_firstPass.1 hmem
    obtain ⟨hflaw', hpass'⟩ := mem_firstPass.1 hmem'
    refine .inr ⟨hpass.trans hpass'.symm, .inl ?_⟩
    rwa [hflaw.definition, hflaw'.definition]
  · rintro done d done' d' ⟨spot, flaw⟩ ⟨spot', flaw'⟩ hlength hmem hmem'
    obtain ⟨hflaw, hpass⟩ := mem_secondPass.1 hmem
    obtain ⟨hflaw', hpass'⟩ := mem_secondPass.1 hmem'
    refine .inr ⟨hpass.trans hpass'.symm, .inl ?_⟩
    rwa [hflaw.definition, hflaw'.definition]
  · rintro ⟨spot, flaw⟩ hmem ⟨spot', flaw'⟩ hmem'
    obtain ⟨done, d, _, -, hmem⟩ := mem_walk.1 hmem
    obtain ⟨done', d', _, -, hmem'⟩ := mem_walk.1 hmem'
    have hpass : spot.pass = 0 := (mem_firstPass.1 hmem).2
    have hpass' : spot'.pass = 1 := (mem_secondPass.1 hmem').2
    refine .inl (?_ : spot.pass < spot'.pass)
    omega

end

end StructQL.SDL
