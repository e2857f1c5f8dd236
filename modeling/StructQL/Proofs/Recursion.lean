import Mathlib.Logic.Function.Iterate

/-!
# Recursions that end

A recursion is given by its body, which answers a question once it is told the answers to the
questions that it asks itself.

* `Terminates`: unfolded often enough, the body answers whatever it is told further down.
* `AsksSmaller`: the body asks smaller questions only.
* `AsksSmaller.terminates`: **a recursion that asks smaller questions only ends for each of them**.
-/

namespace StructQL

variable {α : Type} {β : α → Type} {body : (∀ a, β a) → ∀ a, β a} {size : α → Nat}

/-- **The recursion ends** for a question with an answer: unfolded often enough, its body gives that
answer whatever it is told at the bottom. -/
def Terminates (body : (∀ a, β a) → ∀ a, β a) (a : α) (b : β a) : Prop :=
  ∃ depth, ∀ bottom, body^[depth] bottom a = b

/-- The body asks smaller questions only, so that other answers to the rest change nothing. -/
def AsksSmaller (size : α → Nat) (body : (∀ a, β a) → ∀ a, β a) : Prop :=
  ∀ answer other a, (∀ a', size a' < size a → answer a' = other a') → body answer a = body other a

namespace AsksSmaller

/-- Beyond the size of a question neither the depth matters nor what is told at the bottom. -/
theorem iterate_eq (h : AsksSmaller size body) (bottom other : ∀ a, β a) :
    ∀ depth more a, size a < depth → size a < more →
      body^[depth] bottom a = body^[more] other a := by
  intro depth
  induction depth with
  | zero => intro _ _ hlt; exact absurd hlt (Nat.not_lt_zero _)
  | succ depth ih =>
    intro more a hdepth hmore
    obtain ⟨more, rfl⟩ : ∃ n, more = n + 1 := ⟨more - 1, by omega⟩
    rw [Function.iterate_succ_apply', Function.iterate_succ_apply']
    exact h _ _ a fun a' hlt => ih more a' (by omega) (by omega)

/-- **The recursion ends with what it gives at any depth** beyond the size of the question. -/
theorem terminates (h : AsksSmaller size body) (bottom : ∀ a, β a) {depth : Nat} {a : α}
    (hdepth : size a < depth) : Terminates body a (body^[depth] bottom a) :=
  ⟨depth, fun other => h.iterate_eq other bottom depth depth a hdepth hdepth⟩

/-- What the recursion gives for each question answers all of them as the body does. -/
theorem isFixed (h : AsksSmaller size body) (bottom : ∀ a, β a) :
    body (fun a => body^[size a + 1] bottom a) = fun a => body^[size a + 1] bottom a := by
  funext a
  rw [Function.iterate_succ_apply']
  exact h _ _ a fun a' hlt =>
    h.iterate_eq bottom bottom (size a' + 1) (size a) a' (Nat.lt_succ_self _) hlt

/-- The recursion ends with what answers every question as the body does. -/
theorem terminates_of_fixed (h : AsksSmaller size body) {answer : ∀ a, β a}
    (hfixed : body answer = answer) (a : α) : Terminates body a (answer a) := by
  have hend := h.terminates answer (Nat.lt_succ_self (size a))
  rwa [Function.iterate_fixed hfixed] at hend

end AsksSmaller

end StructQL
