import StructQL.Fault.Basic
import StructQL.Text.Lines

/-!
# Reports and failures

* `Report`: faults in the order in which they were found. One that was reported is not added
  again, so a fault that is met on several ways is reported once.
* `Failure`: what a failing operation answers with, one fault or a report of several.
* `Checked`: a value with the faults that were found on the way to it.
* `Checked.result`: the value if no fault was found.
-/

namespace StructQL

/-- **Faults in the order in which they were found.** -/
structure Report where
  faults : List Fault
  deriving DecidableEq

namespace Report

def empty : Report := ⟨[]⟩

/-- A fault goes to the end unless it was reported. -/
def push (r : Report) (f : Fault) : Report :=
  if f ∈ r.faults then r else ⟨r.faults ++ [f]⟩

/-- Faults are pushed one by one. -/
def pushAll (r : Report) (l : List Fault) : Report := l.foldl push r

/-- The faults of another report are pushed one by one. -/
def extend (r s : Report) : Report := r.pushAll s.faults

/-- The report of a list of faults. -/
def ofList (l : List Fault) : Report := empty.pushAll l

variable {r : Report} {f : Fault} {l : List Fault}

@[simp] theorem pushAll_nil (r : Report) : r.pushAll [] = r := rfl

theorem pushAll_append (r : Report) (l m : List Fault) :
    r.pushAll (l ++ m) = (r.pushAll l).pushAll m := List.foldl_append

theorem mem_push {g : Fault} : g ∈ (r.push f).faults ↔ g ∈ r.faults ∨ g = f := by
  unfold push
  split
  · rename_i h
    exact ⟨.inl, fun hg => hg.elim id fun e => e ▸ h⟩
  · simp

theorem mem_pushAll {g : Fault} : g ∈ (r.pushAll l).faults ↔ g ∈ r.faults ∨ g ∈ l := by
  induction l generalizing r with
  | nil => simp
  | cons f l ih =>
    rw [show r.pushAll (f :: l) = (r.push f).pushAll l from rfl, ih, mem_push, List.mem_cons,
      or_assoc]

theorem length_le_pushAll (r : Report) (l : List Fault) :
    r.faults.length ≤ (r.pushAll l).faults.length := by
  induction l generalizing r with
  | nil => exact Nat.le_refl _
  | cons f l ih =>
    refine Nat.le_trans ?_ (ih (r.push f))
    unfold push
    split <;> simp

/-- **New faults make a report longer.** -/
theorem length_pushAll_eq_iff (hnew : ∀ f ∈ l, f ∉ r.faults) :
    (r.pushAll l).faults.length = r.faults.length ↔ l = [] := by
  constructor
  · intro h
    cases l with
    | nil => rfl
    | cons f l =>
      have hlt : r.faults.length < (r.push f).faults.length := by
        unfold push
        rw [if_neg (hnew f List.mem_cons_self)]
        simp
      have hle := length_le_pushAll (r.push f) l
      rw [show r.pushAll (f :: l) = (r.push f).pushAll l from rfl] at h
      omega
  · rintro rfl
    rfl

/-- The report as a list of its faults, the further lines of a fault indented. -/
def text (r : Report) : String :=
  let entry (f : Fault) : String :=
    match Text.lines f.text with
    | [] => ""
    | first :: others =>
      "\n  - " ++ first ++ String.join (others.map fun line => "\n    " ++ line)
  "The following errors occurred:" ++ String.join (r.faults.map entry)

/-- Every fault on a line of its own. -/
def messages (r : Report) : String := String.join (r.faults.map Fault.line)

end Report

/-- **What a failing operation answers with.** -/
inductive Failure where
  | single (fault : Fault)
  | several (report : Report)
  deriving DecidableEq

namespace Failure

/-- The faults in order. -/
def faults : Failure → List Fault
  | single f => [f]
  | several r => r.faults

/-- The words of the fault, or the list of several. -/
def text : Failure → String
  | single f => f.text
  | several r => r.text

/-- Every fault on a line of its own. -/
def messages (f : Failure) : String := (Report.mk f.faults).messages

end Failure

/-- The failure of a report that is not empty. -/
def Failure.ofReport (r : Report) : Failure :=
  match r.faults with
  | [f] => .single f
  | all => .several ⟨all⟩

/-- The failure of a list of faults that is not empty. -/
def Failure.ofFaults (l : List Fault) : Failure := ofReport (Report.ofList l)

/-- **A value with the faults found on the way to it.** -/
structure Checked (α : Type) where
  value : α
  faults : List Fault

namespace Checked

variable {α β : Type}

instance : Monad Checked where
  pure a := ⟨a, []⟩
  bind c f :=
    let d := f c.value
    ⟨d.value, c.faults ++ d.faults⟩

@[simp] theorem value_pure (a : α) : (pure a : Checked α).value = a := rfl

@[simp] theorem faults_pure (a : α) : (pure a : Checked α).faults = [] := rfl

@[simp] theorem value_bind (c : Checked α) (f : α → Checked β) :
    (c >>= f).value = (f c.value).value := rfl

@[simp] theorem faults_bind (c : Checked α) (f : α → Checked β) :
    (c >>= f).faults = c.faults ++ (f c.value).faults := rfl

/-- A fault, and what there is in spite of it. -/
def fault (value : α) (f : Fault) : Checked α := ⟨value, [f]⟩

/-- Faults alone. -/
def faulty (faults : List Fault) : Checked Unit := ⟨(), faults⟩

/-- The check for every item, and the values in order. -/
def each (l : List α) (f : α → Checked β) : Checked (List β) :=
  let results := l.map f
  ⟨results.map value, results.flatMap faults⟩

@[simp] theorem value_each (l : List α) (f : α → Checked β) :
    (each l f).value = l.map fun a => (f a).value := by
  simp [each]

@[simp] theorem faults_each (l : List α) (f : α → Checked β) :
    (each l f).faults = l.flatMap fun a => (f a).faults := by
  simp [each, List.flatMap_map]

theorem faults_each_eq_nil {l : List α} {f : α → Checked β} :
    (each l f).faults = [] ↔ ∀ a ∈ l, (f a).faults = [] := by
  rw [faults_each, List.flatMap_eq_nil_iff]

theorem faults_bind_eq_nil {c : Checked α} {f : α → Checked β} :
    (c >>= f).faults = [] ↔ c.faults = [] ∧ (f c.value).faults = [] := by
  rw [faults_bind, List.append_eq_nil_iff]

/-- **The value, if no fault was found**, and else the failure that the faults make up. -/
def result (c : Checked α) : Except Failure α :=
  match c.faults with
  | [] => .ok c.value
  | faults => .error (Failure.ofFaults faults)

theorem result_eq_ok {c : Checked α} {a : α} (h : c.result = .ok a) :
    c.faults = [] ∧ c.value = a := by
  unfold result at h
  split at h
  · rename_i hnil
    cases h
    exact ⟨hnil, rfl⟩
  · cases h

end Checked

end StructQL
