import StructQL.Expansion.Occurrence

/-!
# What may be selected on structs

A field that is selected on a struct has no alias, no arguments and hardly any directives, and
it exists. All occurrences are checked, also those that conditions leave out.

* `QueryContext.formFaults`: what is wrong with how a field is written.
* `Schema.isCommonField`, `QueryContext.missingFault?`: the field exists where it is selected.
* `leafFaults`: nothing is selected on leaves.
-/

namespace StructQL

/-- A field that each of the structs has, with one and the same type. -/
def Schema.isCommonField (s : Schema) (structs : List Name) (fieldName : Name) : Bool :=
  let types := structs.map fun n =>
    ((s.struct? n).bind fun type => type.fields.find? fieldName).map Field.type
  match types with
  | some type :: rest => rest.all fun other => other = some type
  | _ => false

namespace QueryContext

variable (ctx : QueryContext)

/-- The directive may stand on a field that is selected on a struct: it is a condition, or the
settings allow it and the schema does not define it for the fields of structs themselves. -/
def allowsDirective (name : Name) : Bool :=
  name.text = "include" || name.text = "skip" ||
    ctx.config.allowCustomFieldDirectives &&
      match ctx.schema.directives.find? name with
      | some definition => !definition.locations.contains .structField
      | none => true

/-- **What is wrong with how a field is written.** -/
def formFaults (o : Occurrence) : List Fault :=
  let aliasFaults :=
    match o.aliasName with
    | some aliasName => [.aliasNotAllowed o.parent o.name aliasName]
    | none => []
  let argumentFaults :=
    if o.arguments.isEmpty then [] else [.argumentsNotAllowed o.parent o.name]
  let directiveFaults :=
    (o.directives.filter fun d => !ctx.allowsDirective d.name).map fun d =>
      .directiveNotAllowed o.parent o.name d.name
  aliasFaults ++ argumentFaults ++ directiveFaults

/-- **The fault of a field that does not exist** on the type that it is selected on. -/
def missingFault? (o : Occurrence) : Option Fault :=
  match ctx.schema.type? o.parent with
  | some (.struct type) =>
    if type.fields.contains o.name then none else some (.unknownField o.parent o.name)
  | some (.structUnion type) =>
    if ctx.schema.isCommonField type.members o.name then none
    else some (.unknownMemberFieldOnUnion o.parent o.name)
  | _ => some (.unknownField o.parent o.name)

end QueryContext

/-- **What is selected on leaves**, though they have no fields. -/
def leafFaults (type : Name) (occurrences : List Occurrence) : List Fault :=
  (occurrences.filter fun o => !o.site.isBare).map fun o =>
    .subselectionOnLeaf o.parent o.name type

end StructQL
