import Mathlib.Data.List.Forall2
import Mathlib.Data.List.Induction
import StructQL.Proofs.Table
import StructQL.SDL.Assembly

/-!
# The schema of definitions without repetitions

Where no type and no directive is defined twice, each definition adds its own type, directive and
faults to the schema, whatever stands before it.

* `IsRegular`: nothing is defined twice, nor any field, value or operation.
* `Defines`: the type that a definition stands for.
* `registry`: the built-in scalars, maybe replaced, and the other types behind them.
* `Definition.type?`, `Definition.operationFaults`, `Definition.fieldFaults`: what a definition adds.
* `Collected`: the schema after some definitions.
* `Collected.add`: one more definition.
* `NoNamesakes.collected`: **what types and directives with distinct names make.**
* `exists_assemble`: **definitions without repetitions have a schema with just what they say**.
-/

namespace StructQL.SDL

open List

/-! ## What definitions say -/

namespace Definition

/-- The name of the type that a definition stands for. -/
def typeName? : Definition → Option Name
  | schema _ | directive _ => none
  | scalar name => some name
  | object type | interface type | inputObject type | struct type => some type.name
  | union type | structUnion type => some type.name
  | enum type => some type.name

/-- The fields of a type with fields. -/
def fields : Definition → List Field
  | object type | interface type | inputObject type | struct type => type.fields
  | _ => []

/-- The values of an enum. -/
def values : Definition → List Name
  | enum type => type.values
  | _ => []

def directive? : Definition → Option DirectiveDefinition
  | directive d => some d
  | _ => none

/-- The types of the operations. -/
def operations? : Definition → Option (List (Name × Name))
  | schema operations => some operations
  | _ => none

end Definition

/-- **Nothing is defined twice**: no type and no directive in the document, no field and no value in its
type, and the types of the operations in one place, each operation once. -/
structure IsRegular (defs : List Definition) : Prop where
  types : (defs.filterMap Definition.typeName?).Nodup
  directives : ((defs.filterMap Definition.directive?).map DirectiveDefinition.name).Nodup
  fields : ∀ d ∈ defs, (d.fields.map Field.name).Nodup
  values : ∀ d ∈ defs, d.values.Nodup
  schema : (defs.filterMap Definition.operations?).length ≤ 1
  operations : ∀ d ∈ defs, ∀ operations, d.operations? = some operations →
    (operations.map Prod.fst).Nodup ∧
      ∀ o ∈ operations, o.1.text ∈ ["query", "mutation", "subscription"]

/-- The type has what was written, and nothing else. -/
structure WrittenFields.Fits (written : WrittenFields) (type : FieldsType) : Prop where
  name : type.name = written.name
  implements : type.implements = written.implements
  fields : type.fields.toList = written.fields

/-- **The definition stands for the type.** A struct keeps no interfaces. -/
inductive Defines : Definition → TypeDefinition → Prop where
  | scalar {name : Name} : Defines (.scalar name) (.scalar name)
  | object {written : WrittenFields} {type : FieldsType} : written.Fits type →
    Defines (.object written) (.object type)
  | interface {written : WrittenFields} {type : FieldsType} : written.Fits type →
    Defines (.interface written) (.interface type)
  | inputObject {written : WrittenFields} {type : FieldsType} : written.Fits type →
    Defines (.inputObject written) (.inputObject type)
  | struct {written : WrittenFields} {type : StructType} : type.name = written.name →
    type.fields.toList = written.fields → Defines (.struct written) (.struct type)
  | union {type : UnionType} : Defines (.union type) (.union type)
  | structUnion {type : UnionType} : Defines (.structUnion type) (.structUnion type)
  | enum {type : EnumType} : Defines (.enum type) (.enum type)

/-- **The built-in scalars**, each replaced by a type of its name, and behind them the other types. -/
def registry (types : List TypeDefinition) : List TypeDefinition :=
  (builtInScalars.map fun n => (types.find? fun t => t.name = n).getD (.scalar n)) ++
    types.filter fun t => t.name ∉ builtInScalars

/-- The type of an operation. -/
def operationType? (operation : String) (operations : List (Name × Name)) : Option Name :=
  (operations.find? fun o => o.1.text = operation).map Prod.snd

/-- **The types of the operations** as they were written. -/
def writtenRoots (operations : List (Name × Name)) : RootTypes where
  query := (operationType? "query" operations).getD RootTypes.standard.query
  mutation := operationType? "mutation" operations
  subscription := operationType? "subscription" operations

/-- The types of the operations of a document, which may be left out. -/
def rootsOf (defs : List Definition) : RootTypes :=
  match defs.filterMap Definition.operations? with
  | [] => .standard
  | operations :: _ => writtenRoots operations

/-- **The schema is what the definitions say**: the types, the directives and the operations. -/
structure Describes (defs : List Definition) (schema : Schema) : Prop where
  types : ∃ types, Forall₂ Defines (defs.filter fun d => d.typeName?.isSome) types ∧
    schema.types.toList = registry types
  directives : schema.directives.toList = defs.filterMap Definition.directive?
  roots : schema.roots = rootsOf defs

/-! ## Repetitions -/

theorem repeated_eq_nil {names : List Name} (h : names.Nodup) : repeated names = [] := by
  suffices hgo : ∀ seen, (∀ n ∈ names, n ∉ seen) → repeated.go seen names = [] from
    hgo [] (by simp)
  induction names with
  | nil => exact fun _ _ => rfl
  | cons n rest ih =>
    intro seen hseen
    obtain ⟨hnot, hrest⟩ := List.nodup_cons.1 h
    rw [repeated.go, if_neg (hseen n List.mem_cons_self)]
    refine ih hrest (n :: seen) fun m hm hmem => ?_
    rcases List.mem_cons.1 hmem with rfl | hmem
    · exact hnot hm
    · exact hseen m (.tail _ hm) hmem

/-! ## The registry -/

/-- The type in the place of a built-in scalar. -/
def builtIn (types : List TypeDefinition) (name : Name) : TypeDefinition :=
  (types.find? fun t => t.name = name).getD (.scalar name)

theorem registry_eq (types : List TypeDefinition) :
    registry types = builtInScalars.map (builtIn types) ++
      types.filter fun t => t.name ∉ builtInScalars := rfl

theorem name_builtIn (types : List TypeDefinition) (name : Name) : (builtIn types name).name = name := by
  unfold builtIn
  cases hfind : types.find? fun t => t.name = name with
  | none => rfl
  | some t => simpa using List.find?_some hfind

theorem builtIn_append {types : List TypeDefinition} {type : TypeDefinition} {name : Name}
    (hnew : type.name ∉ types.map TypeDefinition.name) :
    builtIn (types ++ [type]) name = if name = type.name then type else builtIn types name := by
  unfold builtIn
  rw [List.find?_append]
  by_cases hname : name = type.name
  · subst hname
    have hnone : types.find? (fun t => t.name = type.name) = none := by
      rw [List.find?_eq_none]
      exact fun t ht heq => hnew (List.mem_map.2 ⟨t, ht, by simpa using heq⟩)
    simp [hnone]
  · simp [hname, Ne.symm hname]

theorem name_mem_of_mem_registry {types : List TypeDefinition} {t : TypeDefinition}
    (h : t ∈ registry types) : t.name ∈ builtInScalars ∨ t.name ∈ types.map TypeDefinition.name := by
  rcases List.mem_append.1 h with h | h
  · obtain ⟨n, hn, rfl⟩ := List.mem_map.1 h
    exact .inl ((name_builtIn types n).symm ▸ hn)
  · exact .inr (List.mem_map_of_mem (List.mem_of_mem_filter h))

/-- **A new type takes the place of a built-in scalar, or goes to the end.** -/
theorem toList_put {t : Table TypeDefinition} {types : List TypeDefinition} {type : TypeDefinition}
    (ht : t.toList = registry types) (hnew : type.name ∉ types.map TypeDefinition.name) :
    (t.put type).toList = registry (types ++ [type]) := by
  have hbuiltIn : builtInScalars.map (builtIn (types ++ [type])) =
      builtInScalars.map fun n => if n = type.name then type else builtIn types n :=
    List.map_congr_left fun n _ => builtIn_append hnew
  rw [registry_eq, hbuiltIn, List.filter_append]
  by_cases hmem : type.name ∈ builtInScalars
  · have hcontains : t.contains (Named.nameOf type) = true := by
      refine Table.contains_iff.2 ⟨builtIn types type.name, ?_, name_builtIn types type.name⟩
      rw [ht]
      exact List.mem_append_left _ (List.mem_map_of_mem hmem)
    have hothers : (types.filter fun t => t.name ∉ builtInScalars).map
        (fun t => if t.name = type.name then type else t) =
          types.filter fun t => t.name ∉ builtInScalars := by
      conv => rhs; rw [← List.map_id' (types.filter fun t => t.name ∉ builtInScalars)]
      refine List.map_congr_left fun other hother => if_neg fun heq => ?_
      have hnot : other.name ∉ builtInScalars := by simpa using (List.mem_filter.1 hother).2
      exact hnot (heq ▸ hmem)
    have hreplaced : Table.replaceIn type (registry types) =
        (builtInScalars.map fun n => if n = type.name then type else builtIn types n) ++
          types.filter fun t => t.name ∉ builtInScalars := by
      rw [registry_eq, Table.replaceIn, List.map_append, List.map_map]
      refine congrArg₂ _ (List.map_congr_left fun n _ => ?_) hothers
      change (if (builtIn types n).name = type.name then type else builtIn types n) = _
      rw [name_builtIn]
    rw [Table.put, dif_pos hcontains, List.filter_cons_of_neg (by simpa using hmem), List.filter_nil,
      List.append_nil, ← hreplaced]
    exact congrArg (Table.replaceIn type) ht
  · have hnot : ¬ t.contains (Named.nameOf type) = true := fun hcontains => by
      obtain ⟨other, hother, heq⟩ := Table.contains_iff.1 hcontains
      rw [ht] at hother
      have hname : other.name = type.name := heq
      rcases name_mem_of_mem_registry hother with h | h
      · exact hmem (hname ▸ h)
      · exact hnew (hname ▸ h)
    have hsame : (builtInScalars.map fun n => if n = type.name then type else builtIn types n) =
        builtInScalars.map (builtIn types) :=
      List.map_congr_left fun n hn => if_neg fun heq : n = type.name => hmem (heq ▸ hn)
    rw [Table.put, dif_neg hnot, hsame]
    simp [ht, registry_eq, hmem]

/-! ## The operations -/

theorem operationType?_eq_none {operation : String} {operations : List (Name × Name)}
    (h : ∀ o ∈ operations, o.1.text ≠ operation) : operationType? operation operations = none := by
  rw [operationType?, Option.map_eq_none_iff, List.find?_eq_none]
  simpa using h

theorem operationType?_cons (operation : String) (o : Name × Name) (rest : List (Name × Name)) :
    operationType? operation (o :: rest) =
      if o.1.text = operation then some o.2 else operationType? operation rest := by
  unfold operationType?
  rw [List.find?_cons]
  by_cases h : o.1.text = operation <;> simp [h]

/-- **Each operation that is known and stands once is set.** -/
theorem foldl_setRoot {operations : List (Name × Name)} (hnodup : (operations.map Prod.fst).Nodup)
    (hknown : ∀ o ∈ operations, o.1.text ∈ ["query", "mutation", "subscription"])
    (c : Checked RootTypes) :
    operations.foldl Assembly.setRoot c =
      ⟨{ query := (operationType? "query" operations).getD c.value.query
         mutation := (operationType? "mutation" operations).or c.value.mutation
         subscription := (operationType? "subscription" operations).or c.value.subscription },
        c.faults⟩ := by
  induction operations generalizing c with
  | nil => rfl
  | cons o rest ih =>
    obtain ⟨hnot, hrest⟩ := List.nodup_cons.1 hnodup
    obtain ⟨hfirst, hothers⟩ := List.forall_mem_cons.1 hknown
    rw [List.foldl_cons, ih hrest hothers]
    -- the operation does not stand again
    have hnone : operationType? o.1.text rest = none := operationType?_eq_none fun o' ho' heq =>
      hnot (List.mem_map.2 ⟨o', ho', Name.ext_text heq⟩)
    simp only [List.mem_cons, List.not_mem_nil, or_false] at hfirst
    rcases hfirst with htext | htext | htext
    · rw [htext] at hnone
      simp [Assembly.setRoot, operationType?_cons, htext, hnone]
    · rw [htext] at hnone
      simp [Assembly.setRoot, operationType?_cons, htext, hnone]
    · rw [htext] at hnone
      simp [Assembly.setRoot, operationType?_cons, htext, hnone]

/-! ## One definition after the other -/

section Last

variable {α β : Type} {f : α → Option β} {l : List α} {a : α} {b : β}

theorem filterMap_concat_none (h : f a = none) : (l ++ [a]).filterMap f = l.filterMap f := by
  rw [List.filterMap_append, List.filterMap_cons_none h, List.filterMap_nil, List.append_nil]

theorem filterMap_concat_some (h : f a = some b) :
    (l ++ [a]).filterMap f = l.filterMap f ++ [b] := by
  rw [List.filterMap_append, List.filterMap_cons_some h, List.filterMap_nil]

theorem flatMap_concat (f : α → List β) : (l ++ [a]).flatMap f = l.flatMap f ++ f a := by
  rw [List.flatMap_append, List.flatMap_singleton]

theorem flatMap_concat_nil {f : α → List β} (h : f a = []) :
    (l ++ [a]).flatMap f = l.flatMap f := by
  rw [flatMap_concat, h, List.append_nil]

theorem nodup_concat_iff : (l ++ [a]).Nodup ↔ l.Nodup ∧ a ∉ l := by
  rw [(List.perm_append_singleton a l).nodup_iff, List.nodup_cons, and_comm]

end Last

/-- A type with fields as it is added: the first field of each name counts. -/
def WrittenFields.type (written : WrittenFields) : FieldsType :=
  ⟨written.name, written.implements, Table.ofFirsts written.fields⟩

namespace Definition

/-- **The type that a definition adds.** -/
def type? : Definition → Option TypeDefinition
  | schema _ | directive _ => none
  | scalar name => some (.scalar name)
  | object written => some (.object written.type)
  | interface written => some (.interface written.type)
  | inputObject written => some (.inputObject written.type)
  | struct written => some (.struct ⟨written.name, written.type.fields⟩)
  | union type => some (.union type)
  | structUnion type => some (.structUnion type)
  | enum type => some (.enum ⟨type.name, distinctNames type.values⟩)

/-- The faults of operations that do not exist. -/
def operationFaults : Definition → List Fault
  | schema operations => (operations.foldl Assembly.setRoot ⟨.standard, []⟩).faults
  | _ => []

/-- The faults of fields that stand twice in a type. -/
def fieldFaults : Definition → List Fault
  | object written | interface written | inputObject written | struct written =>
    (repeated (written.fields.map Field.name)).map (Fault.duplicateFieldDefinition written.name)
  | _ => []

theorem map_name_type? (d : Definition) : d.type?.map TypeDefinition.name = d.typeName? := by
  cases d <;> rfl

variable {d : Definition} {type : TypeDefinition}

theorem typeName?_of_type? (h : d.type? = some type) : d.typeName? = some type.name := by
  rw [← d.map_name_type?, h]
  rfl

/-- A definition of a type adds nothing else to the schema. -/
theorem of_type? (h : d.type? = some type) :
    d.directive? = none ∧ d.operations? = none ∧ d.operationFaults = [] := by
  cases d with
  | schema _ | directive _ => cases h
  | _ => exact ⟨rfl, rfl, rfl⟩

end Definition

/-- The types have the names of the definitions. -/
theorem map_name_types (defs : List Definition) :
    (defs.filterMap Definition.type?).map TypeDefinition.name =
      defs.filterMap Definition.typeName? := by
  rw [List.map_filterMap]
  exact congrArg (defs.filterMap ·) (funext Definition.map_name_type?)

/-- The types of the operations that were written last. -/
def lastRoots (all : List (List (Name × Name))) : RootTypes :=
  match all.getLast? with
  | none => .standard
  | some operations => (operations.foldl Assembly.setRoot ⟨.standard, []⟩).value

/-- **The schema after some definitions**, with what was wrong with each of them. -/
structure Collected (defs : List Definition) (a : Assembly) : Prop where
  types : a.schema.types.toList = registry (defs.filterMap Definition.type?)
  defined : a.defined = defs.filterMap Definition.typeName?
  directives : a.schema.directives.toList = defs.filterMap Definition.directive?
  roots : a.schema.roots = lastRoots (defs.filterMap Definition.operations?)
  faults : a.faults = defs.flatMap Definition.operationFaults
  fieldFaults : a.fieldFaults = defs.flatMap Definition.fieldFaults

/-- **Neither a type nor a directive is defined twice.** -/
structure NoNamesakes (defs : List Definition) : Prop where
  types : (defs.filterMap Definition.typeName?).Nodup
  directives : ((defs.filterMap Definition.directive?).map DirectiveDefinition.name).Nodup

variable {defs done : List Definition} {d : Definition} {a : Assembly}

theorem NoNamesakes.of_concat (h : NoNamesakes (done ++ [d])) : NoNamesakes done where
  types := h.types.sublist ((List.sublist_append_left done [d]).filterMap _)
  directives := h.directives.sublist (((List.sublist_append_left done [d]).filterMap _).map _)

theorem collected_nil : Collected [] {} where
  types := rfl
  defined := rfl
  directives := rfl
  roots := rfl
  faults := rfl
  fieldFaults := rfl

/-- A definition of a type adds this type, after the faults of its fields. -/
theorem add_of_type? {type : TypeDefinition} (h : d.type? = some type) :
    a.add d = { a with fieldFaults := a.fieldFaults ++ d.fieldFaults }.addType type := by
  cases d with
  | schema _ | directive _ => cases h
  | object _ | interface _ | inputObject _ | struct _ =>
    obtain rfl := Option.some.inj h
    rfl
  | scalar _ | union _ | structUnion _ | enum _ =>
    obtain rfl := Option.some.inj h
    simp only [Definition.fieldFaults, List.append_nil]
    rfl

/-- One more type. -/
theorem Collected.addType {type : TypeDefinition} (h : Collected done a) (htype : d.type? = some type)
    (hnew : type.name ∉ done.filterMap Definition.typeName?) :
    Collected (done ++ [d]) (a.add d) := by
  have hname := Definition.typeName?_of_type? htype
  obtain ⟨hdirective, hoperations, hfaults⟩ := Definition.of_type? htype
  rw [add_of_type? htype, Assembly.addType, if_neg (h.defined ▸ hnew)]
  refine ⟨?_, ?_, ?_, ?_, ?_, ?_⟩
  · rw [filterMap_concat_some htype]
    exact toList_put h.types (map_name_types done ▸ hnew)
  · rw [filterMap_concat_some hname, ← h.defined]
  · rw [filterMap_concat_none hdirective]
    exact h.directives
  · rw [filterMap_concat_none hoperations]
    exact h.roots
  · rw [flatMap_concat_nil hfaults]
    exact h.faults
  · rw [flatMap_concat, ← h.fieldFaults]

/-- The types of the operations. -/
theorem Collected.addSchema (h : Collected done a) (operations : List (Name × Name)) :
    Collected (done ++ [.schema operations]) (a.add (.schema operations)) := by
  have hstands : Definition.operations? (.schema operations) = some operations := rfl
  refine ⟨?_, ?_, ?_, ?_, ?_, ?_⟩
  · rw [filterMap_concat_none rfl]
    exact h.types
  · rw [filterMap_concat_none rfl]
    exact h.defined
  · rw [filterMap_concat_none rfl]
    exact h.directives
  · rw [filterMap_concat_some hstands, lastRoots, List.getLast?_concat]
    rfl
  · rw [flatMap_concat, ← h.faults]
    rfl
  · rw [flatMap_concat_nil rfl]
    exact h.fieldFaults

/-- One more directive. -/
theorem Collected.addDirective {directive : DirectiveDefinition} (h : Collected done a)
    (hnew : directive.name ∉ (done.filterMap Definition.directive?).map DirectiveDefinition.name) :
    Collected (done ++ [.directive directive]) (a.add (.directive directive)) := by
  have hstands : Definition.directive? (.directive directive) = some directive := rfl
  have hnot : ∀ other ∈ a.schema.directives.toList, other.name ≠ directive.name := by
    intro other hother heq
    rw [h.directives] at hother
    exact hnew (heq ▸ List.mem_map_of_mem hother)
  have hcontains : ¬ a.schema.directives.contains directive.name = true := by
    intro hcontains
    obtain ⟨other, hother, heq⟩ := Table.contains_iff.1 hcontains
    exact hnot other hother heq
  rw [Assembly.add, Assembly.addDirective, if_neg hcontains]
  refine ⟨?_, ?_, ?_, ?_, ?_, ?_⟩
  · rw [filterMap_concat_none rfl]
    exact h.types
  · rw [filterMap_concat_none rfl]
    exact h.defined
  · rw [filterMap_concat_some hstands, ← h.directives]
    exact Table.toList_addNew hnot
  · rw [filterMap_concat_none rfl]
    exact h.roots
  · rw [flatMap_concat_nil rfl]
    exact h.faults
  · rw [flatMap_concat_nil rfl]
    exact h.fieldFaults

/-- **One more definition.** -/
theorem Collected.add (h : Collected done a) (hnew : NoNamesakes (done ++ [d])) :
    Collected (done ++ [d]) (a.add d) := by
  cases htype : d.type? with
  | some type =>
    have hname := Definition.typeName?_of_type? htype
    have hnodup := hnew.types
    rw [filterMap_concat_some hname] at hnodup
    exact h.addType htype (nodup_concat_iff.1 hnodup).2
  | none =>
    cases d with
    | schema operations => exact h.addSchema operations
    | directive directive =>
      have hstands : Definition.directive? (.directive directive) = some directive := rfl
      have hnodup := hnew.directives
      rw [filterMap_concat_some hstands, List.map_append, List.map_singleton] at hnodup
      exact h.addDirective (nodup_concat_iff.1 hnodup).2
    | _ => cases htype

/-- **Definitions without namesakes are collected.** -/
theorem NoNamesakes.collected (h : NoNamesakes defs) : Collected defs (defs.foldl Assembly.add {}) := by
  induction defs using List.reverseRecOn with
  | nil => exact collected_nil
  | append_singleton done d ih =>
    rw [List.foldl_concat]
    exact (ih h.of_concat).add h

/-! ## Definitions without repetitions -/

/-- **The schema after some definitions**, none of which was faulty. -/
structure Built (defs : List Definition) (a : Assembly) : Prop where
  describes : Describes defs a.schema
  defined : a.defined = defs.filterMap Definition.typeName?
  faults : a.faults = []
  fieldFaults : a.fieldFaults = []

theorem IsRegular.noNamesakes (h : IsRegular defs) : NoNamesakes defs := ⟨h.types, h.directives⟩

/-- Without repetitions, a definition stands for the type that it adds. -/
theorem defines_of_type? {type : TypeDefinition} (hfields : (d.fields.map Field.name).Nodup)
    (hvalues : d.values.Nodup) (h : d.type? = some type) : Defines d type := by
  have hfits : ∀ written : WrittenFields, (written.fields.map Field.name).Nodup →
      written.Fits written.type :=
    fun written hnd => ⟨rfl, rfl, Table.toList_ofFirsts hnd⟩
  cases d with
  | schema _ | directive _ => cases h
  | scalar _ =>
    obtain rfl := Option.some.inj h
    exact .scalar
  | object written =>
    obtain rfl := Option.some.inj h
    exact .object (hfits written hfields)
  | interface written =>
    obtain rfl := Option.some.inj h
    exact .interface (hfits written hfields)
  | inputObject written =>
    obtain rfl := Option.some.inj h
    exact .inputObject (hfits written hfields)
  | struct written =>
    obtain rfl := Option.some.inj h
    exact .struct rfl (hfits written hfields).fields
  | union _ =>
    obtain rfl := Option.some.inj h
    exact .union
  | structUnion _ =>
    obtain rfl := Option.some.inj h
    exact .structUnion
  | enum type =>
    have hdistinct : distinctNames type.values = type.values := distinctNames_of_nodup hvalues
    rw [Definition.type?, hdistinct] at h
    obtain rfl := Option.some.inj h
    exact .enum

/-- The types stand in the order of their definitions. -/
theorem forall₂_defines (h : ∀ d ∈ defs, ∀ type, d.type? = some type → Defines d type) :
    Forall₂ Defines (defs.filter fun d => d.typeName?.isSome) (defs.filterMap Definition.type?) := by
  induction defs with
  | nil => exact .nil
  | cons d defs ih =>
    obtain ⟨hd, hdefs⟩ := List.forall_mem_cons.1 h
    have hname := d.map_name_type?
    cases htype : d.type? with
    | none =>
      rw [htype] at hname
      rw [List.filter_cons_of_neg (by simp [← hname]), List.filterMap_cons_none htype]
      exact ih hdefs
    | some type =>
      rw [htype] at hname
      rw [List.filter_cons_of_pos (by simp [← hname]), List.filterMap_cons_some htype]
      exact .cons (hd type htype) (ih hdefs)

/-- The operations stand in one place at most, each once. -/
theorem IsRegular.lastRoots_eq (h : IsRegular defs) :
    lastRoots (defs.filterMap Definition.operations?) = rootsOf defs := by
  have hlength := h.schema
  have hmem : ∀ operations ∈ defs.filterMap Definition.operations?,
      (operations.map Prod.fst).Nodup ∧
        ∀ o ∈ operations, o.1.text ∈ ["query", "mutation", "subscription"] := by
    intro operations hoperations
    obtain ⟨d, hd, hstands⟩ := List.mem_filterMap.1 hoperations
    exact h.operations d hd operations hstands
  unfold rootsOf
  generalize defs.filterMap Definition.operations? = all at hlength hmem
  match all, hlength with
  | [], _ => rfl
  | [operations], _ =>
    obtain ⟨hnodup, hknown⟩ := hmem operations List.mem_cons_self
    have hlast : lastRoots [operations] =
      (operations.foldl Assembly.setRoot ⟨.standard, []⟩).value := rfl
    rw [hlast, foldl_setRoot hnodup hknown]
    simp [writtenRoots, RootTypes.standard]

theorem IsRegular.operationFaults_eq_nil (h : IsRegular defs) :
    defs.flatMap Definition.operationFaults = [] := by
  rw [List.flatMap_eq_nil_iff]
  intro d hd
  cases d with
  | schema operations =>
    obtain ⟨hnodup, hknown⟩ := h.operations _ hd operations rfl
    rw [Definition.operationFaults, foldl_setRoot hnodup hknown]
  | _ => rfl

theorem IsRegular.fieldFaults_eq_nil (h : IsRegular defs) :
    defs.flatMap Definition.fieldFaults = [] := by
  rw [List.flatMap_eq_nil_iff]
  intro d hd
  have hnone : repeated (d.fields.map Field.name) = [] := repeated_eq_nil (h.fields d hd)
  cases d with
  | object _ | interface _ | inputObject _ | struct _ => exact congrArg (List.map _) hnone
  | _ => rfl

/-- **Definitions without repetitions are assembled to what they say**, without a fault. -/
theorem IsRegular.built (h : IsRegular defs) : Built defs (defs.foldl Assembly.add {}) := by
  have hcollected := h.noNamesakes.collected
  have hdefines : ∀ d ∈ defs, ∀ type, d.type? = some type → Defines d type :=
    fun d hd _ => defines_of_type? (h.fields d hd) (h.values d hd)
  refine ⟨⟨⟨_, forall₂_defines hdefines, hcollected.types⟩, hcollected.directives, ?_⟩,
    hcollected.defined, ?_, ?_⟩
  · rw [hcollected.roots, h.lastRoots_eq]
  · rw [hcollected.faults, h.operationFaults_eq_nil]
  · rw [hcollected.fieldFaults, h.fieldFaults_eq_nil]

/-- **Definitions without repetitions have a schema with just what they say.** -/
theorem IsRegular.exists_assemble (h : IsRegular defs) :
    ∃ schema, assemble defs = .ok schema ∧ Describes defs schema := by
  obtain ⟨hdescribes, -, hfaults, hfieldFaults⟩ := h.built
  refine ⟨_, ?_, hdescribes⟩
  unfold assemble
  dsimp only
  rw [hfaults, hfieldFaults]
  rfl

end StructQL.SDL
