import Mathlib.Data.List.Basic
import Std.Data.String.ToNat
import StructQL.Coercion.Path
import StructQL.Fault.Basic
import StructQL.Proofs.Name

/-!
# Places are told apart by their texts

* `steps_of_text`: from one root, different ways have different texts.
* `Fault.place?`: the text of the place that a fault of an input value points at.
* `InputPath.Covers`: a fault points at a place or at one below it.
* `Covers.same_step`: no fault is below two different steps from one place.
-/

namespace StructQL

namespace InputStep

/-- A step begins with a character that stands in no name. -/
theorem head_text (s : InputStep) : ∃ c cs, s.text.toList = c :: cs ∧ isNameContinue c = false := by
  cases s with
  | field n => exact ⟨'.', n.text.toList, by simp [text], by decide⟩
  | index i => exact ⟨'[', _, by simp [text]; rfl, by decide⟩

/-- The characters of a way. -/
def chars (steps : List InputStep) : List Char := steps.flatMap fun s => s.text.toList

theorem chars_cons (s : InputStep) (steps : List InputStep) :
    chars (s :: steps) = s.text.toList ++ chars steps := rfl

theorem takeWhile_chars (steps : List InputStep) : (chars steps).takeWhile isNameContinue = [] := by
  cases steps with
  | nil => rfl
  | cons s steps =>
    obtain ⟨c, cs, hs, hc⟩ := s.head_text
    simp [chars_cons, hs, hc]

theorem takeWhile_index (i : Nat) (l : List Char) :
    ((toString i).toList ++ ']' :: l).takeWhile Char.isDigit = (toString i).toList := by
  rw [List.takeWhile_append_of_pos]
  · simp [show Char.isDigit ']' = false by decide]
  · intro c hc
    rw [Nat.toString_eq_repr, Nat.toList_repr] at hc
    exact Nat.isDigit_of_mem_toDigits (by decide) (by decide) hc

/-- **Different ways have different characters.** -/
theorem chars_injective : ∀ {l m : List InputStep}, chars l = chars m → l = m := by
  intro l
  induction l with
  | nil =>
    intro m h
    cases m with
    | nil => rfl
    | cons s m =>
      obtain ⟨c, cs, hs, -⟩ := s.head_text
      rw [chars_cons, hs] at h
      cases h
  | cons s l ih =>
    intro m h
    cases m with
    | nil =>
      obtain ⟨c, cs, hs, -⟩ := s.head_text
      rw [chars_cons, hs] at h
      cases h
    | cons t m =>
      rw [chars_cons, chars_cons] at h
      cases s with
      | field n =>
        cases t with
        | field k =>
          simp only [text, String.toList_append, String.reduceToList, List.cons_append,
            List.nil_append, List.cons.injEq, true_and] at h
          -- the name ends where the next step starts
          obtain ⟨rfl, hrest⟩ := Name.eq_of_append h (takeWhile_chars l) (takeWhile_chars m)
          rw [ih hrest]
        | index j => simp [text] at h
      | index i =>
        cases t with
        | field k => simp [text] at h
        | index j =>
          simp only [text, String.toList_append, List.append_assoc, String.reduceToList,
            List.cons_append, List.nil_append, List.cons.injEq, true_and] at h
          -- and the index ends at the bracket
          have hi := takeWhile_index i (chars l)
          rw [h, takeWhile_index] at hi
          rw [hi] at h
          have hij : i = j := Nat.repr_injective (String.toList_inj.1 hi.symm)
          rw [hij, ih (List.cons.inj (List.append_cancel_left h)).2]

end InputStep

/-- The text of the place that a fault of an input value points at. -/
def Fault.place? : Fault → Option String
  | missingDiscriminator path _ | unknownDiscriminator path _ _ | typeMismatch path _ _
  | invalidInputValue path _ | missingRequiredField path _ _ | unknownInputField path _ _ =>
    some path
  | _ => none

namespace InputPath

theorem toList_text (p : InputPath) :
    p.text.toList = p.root.toList ++ InputStep.chars p.steps := by
  simp [text, InputStep.chars, List.flatMap_map]

/-- **From one root, different ways have different texts.** -/
theorem steps_of_text {root : String} {a b : List InputStep}
    (h : (InputPath.mk root a).text = (InputPath.mk root b).text) : a = b := by
  have hl := congrArg String.toList h
  rw [toList_text, toList_text] at hl
  exact InputStep.chars_injective (List.append_cancel_left hl)

/-- The fault points at the place or at one below it. -/
def Covers (p : InputPath) (f : Fault) : Prop :=
  ∃ steps, f.place? = some (InputPath.mk p.root (p.steps ++ steps)).text

variable {p : InputPath} {f : Fault} {s t : InputStep}

theorem Covers.here (h : f.place? = some p.text) : p.Covers f := ⟨[], by simpa using h⟩

theorem Covers.of_step (h : (p.step s).Covers f) : p.Covers f := by
  obtain ⟨steps, hs⟩ := h
  exact ⟨s :: steps, by simpa [step] using hs⟩

/-- No fault is below two different steps from one place. -/
theorem Covers.same_step (hs : (p.step s).Covers f) (ht : (p.step t).Covers f) : s = t := by
  obtain ⟨a, ha⟩ := hs
  obtain ⟨b, hb⟩ := ht
  have h := steps_of_text (Option.some.inj (ha.symm.trans hb))
  simp only [step, List.append_assoc] at h
  exact (List.cons.inj (List.append_cancel_left h)).1

/-- A fault at a place is not below any step from it. -/
theorem not_covers_step (h : f.place? = some p.text) : ¬ (p.step s).Covers f := by
  rintro ⟨a, ha⟩
  have h := steps_of_text (a := p.steps) (Option.some.inj (h.symm.trans ha))
  simp only [step, List.append_assoc] at h
  have := congrArg List.length h
  simp at this

end InputPath

end StructQL
