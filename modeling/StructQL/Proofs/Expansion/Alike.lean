import StructQL.Gathering.Restrictions
import StructQL.Merger
import StructQL.Proofs.Expansion.Stands
import StructQL.Proofs.Table

/-!
# Documents that differ in their selections

Two documents with the same operations and fragments, whose selections are related. What is read
with them has the same schema, variables and settings.

* `Document.Alike`: the two documents.
* `Site.Alike`, `Occurrence.Alike`: the same, but with related selections.
* `QueryContext.withFragments`: the same with other fragments.
* `Occurrence.Alike.formFaults`: what does not depend on the selections of a field.
-/

namespace StructQL

variable {R : List Query.Node → List Query.Node → Prop}

namespace Query

/-- The same operation with related selections. -/
inductive Operation.Alike (R : List Node → List Node → Prop) : Operation → Operation → Prop where
  | mk {operation : Operation} {selections : List Node} : R operation.selections selections →
    Alike R operation { operation with selections := selections }

/-- The same fragment with related selections. -/
inductive Fragment.Alike (R : List Node → List Node → Prop) : Fragment → Fragment → Prop where
  | mk {fragment : Fragment} {selections : List Node} : R fragment.selections selections →
    Alike R fragment { fragment with selections := selections }

/-- **Documents that differ in their selections only**, and in related ones. -/
structure Document.Alike (R : List Node → List Node → Prop) (d other : Document) : Prop where
  operations : List.Forall₂ (Operation.Alike R) d.operations other.operations
  fragments : List.Forall₂ (Fragment.Alike R) d.fragments other.fragments

theorem Fragment.Alike.name {fragment other : Fragment} (h : fragment.Alike R other) :
    fragment.name = other.name := by
  cases h
  rfl

/-- The fragments of documents that are alike are alike under each name. -/
theorem Document.Alike.fragmentTable {d other : Document} (h : d.Alike R other) :
    Table.Related (Fragment.Alike R) d.fragmentTable other.fragmentTable :=
  Table.related_ofFirsts h.fragments fun _ _ hf => hf.name

end Query

/-! ## Sites and occurrences -/

/-- A site with related selections, which is included if the other one is. -/
structure Site.Alike (R : List Query.Node → List Query.Node → Prop) (site other : Site) : Prop where
  selections : R site.selections other.selections
  included : site.included = other.included

/-- The same occurrence with related selections. -/
inductive Occurrence.Alike (R : List Query.Node → List Query.Node → Prop) :
    Occurrence → Occurrence → Prop where
  | mk {o : Occurrence} {site : Site} : o.site.Alike R site → Alike R o { o with site := site }

/-- Nothing is selected on one side just if nothing is on the other side. -/
def KeepsBare (R : List Query.Node → List Query.Node → Prop) : Prop :=
  ∀ nodes other, R nodes other → (nodes = [] ↔ other = [])

theorem Site.Alike.isBare (hR : KeepsBare R) {site other : Site} (h : site.Alike R other) :
    site.isBare = other.isBare := by
  rw [Bool.eq_iff_iff]
  unfold Site.isBare
  rw [List.isEmpty_iff, List.isEmpty_iff]
  exact hR _ _ h.selections

namespace Occurrence.Alike

variable {o other : Occurrence}

theorem site (h : o.Alike R other) : o.site.Alike R other.site := by
  cases h
  assumption

theorem parent (h : o.Alike R other) : o.parent = other.parent := by
  cases h
  rfl

theorem aliasName (h : o.Alike R other) : o.aliasName = other.aliasName := by
  cases h
  rfl

theorem name (h : o.Alike R other) : o.name = other.name := by
  cases h
  rfl

theorem formFaults (ctx : QueryContext) (h : o.Alike R other) :
    ctx.formFaults o = ctx.formFaults other := by
  cases h
  rfl

end Occurrence.Alike

/-! ## Contexts -/

/-- The same with other fragments. -/
def QueryContext.withFragments (ctx : QueryContext) (fragments : Table Query.Fragment) :
    QueryContext :=
  { ctx with fragments := fragments }

theorem QueryContext.schema_withFragments (ctx : QueryContext) (fragments : Table Query.Fragment) :
    (ctx.withFragments fragments).schema = ctx.schema := rfl

theorem QueryContext.isIncluded_withFragments (ctx : QueryContext)
    (fragments : Table Query.Fragment) (directives : List Query.Directive) :
    (ctx.withFragments fragments).isIncluded directives = ctx.isIncluded directives := rfl

end StructQL
