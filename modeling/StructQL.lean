import StructQL.Coercion.Input
import StructQL.Main
import StructQL.Merger
import StructQL.SDL.Document
import StructQL.Schema.Valid
import StructQL.Selection.Merge
import StructQL.Selection.Projection
import StructQL.Proofs.Input.Coerces
import StructQL.Proofs.Input.Path
import StructQL.Proofs.Input.Faults
import StructQL.Proofs.Input.Exact
import StructQL.Proofs.Schema.ReferenceGraph
import StructQL.Proofs.Schema.Instantiable
import StructQL.Proofs.Schema.CycleSearch
import StructQL.Proofs.Schema.UnbreakableCycle
import StructQL.Proofs.Input.Inhabited
import StructQL.Proofs.Expansion.Selects
import StructQL.Proofs.Expansion.Depth
import StructQL.Proofs.Gathering.Collects
import StructQL.Proofs.Gathering.Form
import StructQL.Proofs.Gathering.StructSelection
import StructQL.Proofs.Gathering.ObjectEntries
import StructQL.Proofs.Pairs
import StructQL.Proofs.Input.RoundTrip
import StructQL.Proofs.Gathering.Faults
import StructQL.Proofs.Selection.Merge
import StructQL.Proofs.Gathering.Scoped
import StructQL.Proofs.Gathering.Join
import StructQL.Proofs.Gathering.SingleField
import StructQL.Proofs.Gathering.Grammar
import StructQL.Proofs.Selection.Covers
import StructQL.Proofs.Selection.Join
import StructQL.Proofs.Gathering.WellScoped
import StructQL.Proofs.Expansion.Stricter
import StructQL.Proofs.Fault.Comparison
import StructQL.Proofs.Gathering.Compared
import StructQL.Proofs.Gathering.Stricter
import StructQL.Proofs.Gathering.Conditions
import StructQL.Proofs.Table
import StructQL.Proofs.Expansion.FragmentCycle
import StructQL.Proofs.Expansion.Alike
import StructQL.Proofs.Expansion.Unfolds
import StructQL.Proofs.Expansion.Rearranged
import StructQL.Proofs.Fault.Report
import StructQL.Proofs.Fault.Among
import StructQL.Proofs.Gathering.Levels
import StructQL.Proofs.Gathering.Distinct
import StructQL.Proofs.Gathering.Unfolds
import StructQL.Proofs.Gathering.Rearranged
import StructQL.Proofs.Gathering.Trails
import StructQL.Proofs.Selection.Projection
import StructQL.Proofs.Gathering.Projection
import StructQL.Proofs.Schema.LeastFixedPoint
import StructQL.Proofs.Schema.SimpleCycle
import StructQL.Proofs.Schema.Violations
import StructQL.Proofs.Reading.Rule
import StructQL.Proofs.SDL.Written
import StructQL.Proofs.SDL.Blank
import StructQL.Proofs.SDL.Lexeme
import StructQL.Proofs.SDL.Constant
import StructQL.Proofs.SDL.Slot
import StructQL.Proofs.SDL.Fields
import StructQL.Proofs.SDL.Members
import StructQL.Proofs.SDL.Definition
import StructQL.Proofs.SDL.Document
import StructQL.Proofs.SDL.Assembly
import StructQL.Proofs.SDL.RoundTrip
import StructQL.Proofs.Expansion.ReportedCycles
import StructQL.Proofs.Input.UnknownFields
import StructQL.Proofs.Input.Violations
import StructQL.Proofs.Schema.Rearranged
import StructQL.Proofs.SDL.Rearranged
import StructQL.Proofs.Name
import StructQL.Proofs.Selection.Absorbed
import StructQL.Proofs.Input.Typed
import StructQL.Proofs.Gathering.Shaping
import StructQL.Proofs.SDL.Flaws
import StructQL.Proofs.SDL.Repetitions
import StructQL.Proofs.Query.Token
import StructQL.Proofs.Selection.Text
import StructQL.Proofs.Query.Selection
import StructQL.Proofs.Gathering.Rendered
import StructQL.Proofs.Recursion
import StructQL.Proofs.Expansion.Steps
import StructQL.Proofs.Gathering.Termination
import StructQL.Proofs.Reading.Progress
import StructQL.Proofs.SDL.Progress
import StructQL.Proofs.SDL.Outcome
