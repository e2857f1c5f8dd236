import StructQL.Name

/-!
# Names within texts

* `exists_of_isName`, `Name.isNameContinue_of_mem`: what the characters of a name are.
* `ofChars?_eq_some_iff`: characters are read as a name.
* `Name.eq_of_append`: **a name is read off the front of a text**, where it ends with its characters.
-/

namespace StructQL

/-- A name is a character that may open one, and others that may go on. -/
theorem exists_of_isName {cs : List Char} (h : isName cs = true) :
    ∃ c others, cs = c :: others ∧ isNameStart c = true ∧ ∀ d ∈ others, isNameContinue d = true := by
  cases cs with
  | nil => cases h
  | cons c others =>
    obtain ⟨hc, hothers⟩ : isNameStart c = true ∧ others.all isNameContinue = true := by
      simpa [isName] using h
    exact ⟨c, others, rfl, hc, List.all_eq_true.1 hothers⟩

theorem ofChars?_eq_some_iff {cs : List Char} {n : Name} :
    Name.ofChars? cs = some n ↔ cs = n.text.toList := by
  unfold Name.ofChars?
  constructor
  · intro h
    rw [Name.text_eq_of_ofString? h, String.toList_ofList]
  · rintro rfl
    rw [String.ofList_toList, Name.ofString?_text]

theorem isNameContinue_of_isNameStart {c : Char} (h : isNameStart c = true) :
    isNameContinue c = true := by
  simp only [isNameStart, isNameContinue, Char.isAlphanum] at h ⊢
  grind

theorem Name.isNameContinue_of_mem (n : Name) {c : Char} (hc : c ∈ n.text.toList) :
    isNameContinue c = true := by
  obtain ⟨first, others, heq, hfirst, hothers⟩ := exists_of_isName n.isName_text
  rw [heq] at hc
  rcases List.mem_cons.1 hc with rfl | hc
  · exact isNameContinue_of_isNameStart hfirst
  · exact hothers c hc

theorem Name.takeWhile_append (n : Name) {rest : List Char}
    (h : rest.takeWhile isNameContinue = []) :
    (n.text.toList ++ rest).takeWhile isNameContinue = n.text.toList := by
  rw [List.takeWhile_append_of_pos fun c hc => n.isNameContinue_of_mem hc, h, List.append_nil]

/-- **A name is read off the front**, if what follows it opens with no character of a name. -/
theorem Name.eq_of_append {a b : Name} {l m : List Char}
    (h : a.text.toList ++ l = b.text.toList ++ m) (hl : l.takeWhile isNameContinue = [])
    (hm : m.takeWhile isNameContinue = []) : a = b ∧ l = m := by
  have hname := a.takeWhile_append hl
  rw [h, b.takeWhile_append hm] at hname
  rw [hname] at h
  exact ⟨Name.ext_text (String.toList_inj.1 hname.symm), List.append_cancel_left h⟩

end StructQL
