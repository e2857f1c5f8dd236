import StructQL.Fault.Report

/-!
# Reporting

Steps that go on after a fault, and share one report of the faults found so far.

* `Reporting`: the steps.
* `report`, `reportAll`: faults are reported.
* `refuse`: a fault in place of a value.
* `Reporting.result`: what a step answers to an operation.
-/

namespace StructQL

/-- **A step that reports the faults it finds.** -/
abbrev Reporting (α : Type) := StateM Report α

namespace Reporting

variable {α β : Type}

/-- A fault is reported. -/
def report (f : Fault) : Reporting Unit := modify fun r => r.push f

/-- Faults are reported one by one. -/
def reportAll (l : List Fault) : Reporting Unit := modify fun r => r.pushAll l

/-- A fault in place of a value. -/
def refuse (f : Fault) : Reporting (Option α) := do
  report f
  return none

/-- How many faults were reported so far. -/
def faultCount : Reporting Nat := do
  return (← get).faults.length

theorem run_pure (a : α) (r : Report) : (pure a : Reporting α).run r = (a, r) := rfl

theorem run_bind (step : Reporting α) (next : α → Reporting β) (r : Report) :
    (step >>= next).run r = (next (step.run r).1).run (step.run r).2 := rfl

theorem run_refuse (f : Fault) (r : Report) :
    (refuse f : Reporting (Option α)).run r = (none, r.pushAll [f]) := rfl

/-- **What a step answers** that starts with an empty report: all that was reported, or its
value. A step that has neither value nor faults fails with the given fault. -/
def result (step : Reporting (Option α)) (missing : Fault) : Except Failure α :=
  match step.run .empty with
  | (value, report) =>
    if report.faults.isEmpty then
      match value with
      | some a => .ok a
      | none => .error (.single missing)
    else .error (Failure.ofReport report)

end Reporting

end StructQL
