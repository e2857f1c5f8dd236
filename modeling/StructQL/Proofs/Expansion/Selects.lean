import StructQL.Proofs.Expansion.Stands

/-!
# What selections lead to

The fields that selections list themselves and through fragments, without those that conditions
leave out.

* `QueryContext.Selects`: the selections lead to a field, under the conditions of the fragments
  around it.
* `selects_iff_stands`: the field stands in the selections, and nothing on the way is left out.
* `selects_of_mem_occurrences`, `exists_occurrence_of_selects`: **the included occurrences of a site
  without faults are the fields that its selections lead to**, each on its innermost condition.
-/

namespace StructQL

/-- **A field as it is selected**: under which key, and with what of its value. -/
structure SelectedField where
  key : Name
  name : Name
  selections : List Query.Node

/-- The field of an occurrence. -/
def Occurrence.field (o : Occurrence) : SelectedField :=
  ⟨o.responseKey, o.name, o.site.selections⟩

namespace QueryContext

/-- **The selections lead to a field**, and nothing on the way is left out. Listed are the
conditions of the fragments around the field and the names of those that are spread, the
outermost first. -/
inductive Selects (ctx : QueryContext) :
    List Query.Node → List Name → List Name → SelectedField → Prop where
  | field {nodes selections : List Query.Node} {aliasName : Option Name} {name : Name}
    {arguments : List Query.Argument} {directives : List Query.Directive} :
    .field aliasName name arguments directives selections ∈ nodes →
    ctx.isIncluded directives = true →
    Selects ctx nodes [] [] ⟨aliasName.getD name, name, selections⟩
  | inline {nodes selections : List Query.Node} {condition : Option Name}
    {directives : List Query.Directive} {conditions names : List Name} {f : SelectedField} :
    .inline condition directives selections ∈ nodes → ctx.isIncluded directives = true →
    Selects ctx selections conditions names f →
    Selects ctx nodes (condition.toList ++ conditions) names f
  | spread {nodes : List Query.Node} {name : Name} {directives : List Query.Directive}
    {fragment : Query.Fragment} {conditions names : List Name} {f : SelectedField} :
    .spread name directives ∈ nodes → ctx.isIncluded directives = true →
    ctx.fragments.find? name = some fragment →
    Selects ctx fragment.selections conditions names f →
    Selects ctx nodes (fragment.condition :: conditions) (name :: names) f

variable {ctx : QueryContext} {nodes : List Query.Node} {conditions names : List Name}
  {f : SelectedField} {scope : Name} {site : Site}

/-- **The selections lead to a field that stands in them**, if nothing on the way to it and not the
field itself is left out. -/
theorem selects_iff_stands :
    ctx.Selects nodes conditions names f ↔ ∃ aliasName arguments directives,
      Stands ctx.fragments (ctx.isIncluded · = true) nodes conditions names
        (.field aliasName f.name arguments directives f.selections) ∧
      ctx.isIncluded directives = true ∧ f.key = aliasName.getD f.name := by
  constructor
  · intro h
    induction h with
    | @field _ _ aliasName _ arguments directives hmem hinc =>
      exact ⟨aliasName, arguments, directives, .here hmem, hinc, rfl⟩
    | inline hmem hinc _ ih =>
      obtain ⟨aliasName, arguments, directives, hs, hkept, hkey⟩ := ih
      exact ⟨aliasName, arguments, directives, .inline hmem hinc hs, hkept, hkey⟩
    | spread hmem hinc hfind _ ih =>
      obtain ⟨aliasName, arguments, directives, hs, hkept, hkey⟩ := ih
      exact ⟨aliasName, arguments, directives, .spread hmem hinc hfind hs, hkept, hkey⟩
  · rintro ⟨aliasName, arguments, directives, hs, hkept, hkey⟩
    obtain ⟨key, name, selections⟩ := f
    dsimp only at hs hkey
    subst hkey
    generalize hnode : Query.Node.field aliasName name arguments directives selections = node at hs
    induction hs with
    | here hmem =>
      subst hnode
      exact .field hmem hkept
    | inline hmem hinc _ ih => exact .inline hmem hinc (ih hnode)
    | spread hmem hinc hfind _ ih => exact .spread hmem hinc hfind (ih hnode)

/-- **An included occurrence of a site is a field that its selections lead to.** -/
theorem selects_of_mem_occurrences {o : Occurrence}
    (ho : o ∈ (ctx.occurrences scope site).value) (hinc : o.isIncluded = true) :
    site.included = true ∧ ∃ conditions names, ctx.Selects site.selections conditions names o.field ∧
      o.parent = innermost conditions scope := by
  obtain ⟨conditions, names, hp, -, hkept⟩ := stands_of_mem_expand _ _ _ _ o ho
  obtain ⟨hsite, hdirectives, hs⟩ := hkept hinc
  exact ⟨hsite, conditions, names, selects_iff_stands.2 ⟨_, _, _, hs, hdirectives, rfl⟩, hp⟩

/-- **A field that the selections of a site lead to is an included occurrence**, unless there are
faults. -/
theorem exists_occurrence_of_selects (h : ctx.Selects site.selections conditions names f)
    (hsite : site.included = true) (hfaults : (ctx.occurrences scope site).faults = []) :
    ∃ o ∈ (ctx.occurrences scope site).value, o.isIncluded = true ∧ o.field = f ∧
      o.parent = innermost conditions scope := by
  obtain ⟨aliasName, arguments, directives, hs, hkept, hkey⟩ := selects_iff_stands.1 h
  obtain ⟨o, ho, hnode, hparent, hinc⟩ := exists_occurrence_of_stands hs hfaults
  obtain ⟨parent, _, _, _, _, ⟨_, included⟩⟩ := o
  cases hnode
  refine ⟨_, ho, hinc hsite (fun _ hd => hd) hkept, ?_, hparent⟩
  obtain ⟨key, name, selections⟩ := f
  dsimp only at hkey
  subst hkey
  rfl

end QueryContext

end StructQL
