import StructQL.Schema.Basic

/-!
# References among structs

A struct refers to the structs and struct unions that its fields have as types, a struct union
to its members. A reference is forcing if a value of the one needs a value of the other: a
field that is neither nullable nor a list, or a member.

* `Reference`, `Schema.references`: the references of a type.
* `ReferenceGraph`, `Schema.referenceGraph`: the references of all types, one after another.
* `Reference.describe`: a cycle written as `A.b -> B.a -> A`.
-/

namespace StructQL

/-- **A reference** from one struct or struct union to another. -/
structure Reference where
  source : Name
  /-- The field of the struct, or none for a member of a union. -/
  field : Option Name
  target : Name
  forcing : Bool
  deriving DecidableEq

/-- How a reference stands in a cycle. -/
def Reference.step (r : Reference) : String :=
  match r.field with
  | some field => s!"{r.source}.{field} -> "
  | none => s!"{r.source} -> "

/-- **A cycle written out**, up to the type it comes back to. -/
def Reference.describe (cycle : List Reference) : String :=
  match cycle with
  | [] => ""
  | first :: _ => String.join (cycle.map step) ++ first.source.text

/-- **A graph of references**: the structs and struct unions, and how they refer to one another. -/
structure ReferenceGraph where
  nodes : List Name
  /-- The nodes that are struct unions. -/
  unions : List Name
  edges : List Reference
  deriving DecidableEq

namespace Schema

variable (s : Schema)

/-- **The references of a type**, in the order in which they are declared. -/
def references : TypeDefinition → List Reference
  | .struct type =>
    (type.fields.toList.filter fun f => s.isStructLike f.type.base).map fun f =>
      ⟨type.name, some f.name, f.type.base, f.type.isForcing⟩
  | .structUnion type =>
    ((distinctNames type.members).filter s.isStructLike).map fun m =>
      ⟨type.name, none, m, true⟩
  | _ => []

/-- The structs and struct unions. -/
def structLikes : List TypeDefinition :=
  s.types.toList.filter fun type => type.kind.isStructLike

/-- **The graph of a schema**, type by type. -/
def referenceGraph : ReferenceGraph where
  nodes := s.structLikes.map TypeDefinition.name
  unions := s.structUnions.map UnionType.name
  edges := s.types.toList.flatMap s.references

end Schema

namespace ReferenceGraph

variable (g : ReferenceGraph)

/-- The references of a node with their places in the graph, the last one first. -/
def edgesFrom (node : Name) : List (Reference × Nat) :=
  (g.edges.zipIdx.filter fun e => e.1.source = node).reverse

/-- The nodes that the node needs values of, or one of which it needs a value of. -/
def required (node : Name) : List Name :=
  ((g.edgesFrom node).filter fun e => e.1.forcing).map fun e => e.1.target

end ReferenceGraph

end StructQL
