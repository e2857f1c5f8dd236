import StructQL.Schema.Members
import StructQL.Schema.CycleSearch

/-!
# Valid schemas

* `Schema.cycleFaults`: the structs of which no value can be built.
* `Schema.shapeFaults`: all that is wrong with the structs and struct unions of a schema.
* `ValidSchema`: a schema with which nothing is wrong.
* `Schema.validate`: a schema as a valid one.
-/

namespace StructQL

namespace Schema

variable (s : Schema)

/-- **The structs of which no value can be built**, each with a cycle that it leads to. -/
def cycleFaults : List Fault :=
  let instantiable := s.instantiable
  s.structs.filterMap fun type =>
    (s.unbreakableCycle? instantiable type.name).map fun cycle =>
      .cycle type.name (Reference.describe cycle)

/-- **All that is wrong with the structs and struct unions.** -/
def shapeFaults : List Fault :=
  s.structs.flatMap s.structFaults ++ s.structUnions.flatMap s.unionFaults ++ s.cycleFaults

end Schema

/-- **A schema with which nothing is wrong.** -/
structure ValidSchema where
  schema : Schema
  shapeFaults_eq_nil : schema.shapeFaults = []

/-- A schema as a valid one, or all that is wrong with it. -/
def Schema.validate (s : Schema) : Except Failure ValidSchema :=
  if h : s.shapeFaults = [] then .ok ⟨s, h⟩ else .error (Failure.ofFaults s.shapeFaults)

end StructQL
