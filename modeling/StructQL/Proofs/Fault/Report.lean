import Mathlib.Data.List.Nodup
import StructQL.Fault.Report

/-!
# What a failure reports

* `Failure.mem_faults_ofFaults`: a failure has the faults that it was made of.
* `Failure.nodup_ofFaults`: **no fault is reported twice.**
* `faultsOf`: the faults of an answer.
* `Checked.faultsOf_result`: an answer has the faults that were found, each once.
* `Report.perm_ofList`: the order of the faults does not matter for which are reported.
* `Report.faults_ofList_filter`: faults may be left out before or after they are reported.
-/

namespace StructQL

namespace Report

theorem mem_ofList {l : List Fault} {f : Fault} : f ∈ (ofList l).faults ↔ f ∈ l := by
  rw [ofList, mem_pushAll]
  simp [empty]

theorem ofList_eq_nil_iff {l : List Fault} : (ofList l).faults = [] ↔ l = [] := by
  simp only [List.eq_nil_iff_forall_not_mem, mem_ofList]

/-- A fault that was reported is not reported again. -/
theorem faults_ofList_concat (l : List Fault) (f : Fault) :
    (ofList (l ++ [f])).faults =
      if f ∈ (ofList l).faults then (ofList l).faults else (ofList l).faults ++ [f] := by
  rw [ofList, pushAll_append, ← ofList]
  change ((ofList l).push f).faults = _
  unfold push
  split <;> rfl

theorem nodup_pushAll (r : Report) (h : r.faults.Nodup) (faults : List Fault) :
    (r.pushAll faults).faults.Nodup := by
  induction faults generalizing r with
  | nil => exact h
  | cons f faults ih =>
    refine ih (r.push f) ?_
    unfold Report.push
    split
    · exact h
    · rename_i hnew
      rw [← List.concat_eq_append]
      exact h.concat hnew

theorem nodup_ofList (l : List Fault) : (ofList l).faults.Nodup :=
  nodup_pushAll _ List.nodup_nil l

end Report

theorem Failure.faults_ofReport (r : Report) : (Failure.ofReport r).faults = r.faults := by
  unfold Failure.ofReport
  split
  · rename_i h
    exact h.symm
  · rfl

theorem Failure.mem_faults_ofFaults {l : List Fault} {f : Fault} :
    f ∈ (Failure.ofFaults l).faults ↔ f ∈ l := by
  rw [Failure.ofFaults, Failure.faults_ofReport, Report.mem_ofList]

/-- **No fault is reported twice.** -/
theorem Failure.nodup_ofFaults (faults : List Fault) : (Failure.ofFaults faults).faults.Nodup := by
  rw [Failure.ofFaults, Failure.faults_ofReport]
  exact Report.nodup_ofList faults

/-! ## Answers -/

/-- The faults of an answer. There are none if it is a value. -/
def faultsOf {α : Type} : Except Failure α → List Fault
  | .ok _ => []
  | .error failure => failure.faults

theorem Checked.result_of_ne_nil {α : Type} {c : Checked α} (h : c.faults ≠ []) :
    c.result = .error (Failure.ofFaults c.faults) := by
  unfold Checked.result
  split
  · rename_i hnil
    exact absurd hnil h
  · rfl

/-- **An answer has the faults that were found**, each once. -/
theorem Checked.faultsOf_result {α : Type} (c : Checked α) :
    faultsOf c.result = (Report.ofList c.faults).faults := by
  unfold Checked.result
  split
  · rename_i h
    rw [h]
    rfl
  · exact Failure.faults_ofReport _

theorem Checked.mem_faultsOf_result {α : Type} {c : Checked α} {f : Fault} :
    f ∈ faultsOf c.result ↔ f ∈ c.faults := by
  rw [Checked.faultsOf_result, Report.mem_ofList]

namespace Report

/-! ## Another order -/

/-- **The order of the faults does not matter** for which are reported. -/
theorem perm_ofList {l m : List Fault} (h : l.Perm m) :
    (ofList l).faults.Perm (ofList m).faults := by
  rw [List.perm_ext_iff_of_nodup (nodup_ofList l) (nodup_ofList m)]
  intro f
  rw [mem_ofList, mem_ofList, h.mem_iff]

/-! ## Leaving faults out -/

variable {p : Fault → Bool} {f : Fault} {r r' : Report}

/-- A report without some faults takes a fault that is not left out. -/
theorem faults_push_filter (h : r'.faults = r.faults.filter p) (hf : p f = true) :
    (r'.push f).faults = (r.push f).faults.filter p := by
  have hmem : f ∈ r'.faults ↔ f ∈ r.faults := by
    rw [h, List.mem_filter]
    exact and_iff_left hf
  unfold push
  by_cases hold : f ∈ r.faults
  · rw [if_pos hold, if_pos (hmem.2 hold)]
    exact h
  · rw [if_neg hold, if_neg (fun hnew => hold (hmem.1 hnew)), List.filter_append,
      List.filter_cons_of_pos hf, List.filter_nil, h]

/-- A fault that is left out changes nothing. -/
theorem faults_push_of_left_out (h : r'.faults = r.faults.filter p) (hf : ¬ p f = true) :
    r'.faults = (r.push f).faults.filter p := by
  unfold push
  split
  · exact h
  · rw [List.filter_append, List.filter_cons_of_neg hf, List.filter_nil, List.append_nil]
    exact h

theorem faults_pushAll_filter (l : List Fault) (h : r'.faults = r.faults.filter p) :
    (r'.pushAll (l.filter p)).faults = (r.pushAll l).faults.filter p := by
  induction l generalizing r r' with
  | nil => exact h
  | cons f l ih =>
    by_cases hf : p f = true
    · rw [List.filter_cons_of_pos hf]
      exact ih (faults_push_filter h hf)
    · rw [List.filter_cons_of_neg hf]
      exact ih (faults_push_of_left_out h hf)

/-- **Faults may be left out before or after they are reported.** -/
theorem faults_ofList_filter (p : Fault → Bool) (l : List Fault) :
    (ofList (l.filter p)).faults = (ofList l).faults.filter p :=
  faults_pushAll_filter l rfl

end Report

end StructQL
