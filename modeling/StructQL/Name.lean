/-!
# Names

A name opens with an ASCII letter or an underscore and goes on with ASCII letters,
digits and underscores. Types, fields, arguments, directives, fragments and variables
are all named this way.

* `Name`: a text together with the proof that it is a name.
* `Name.ofString?`, `Name.ofChars?`: a text read as a name, if it is one.
* `distinctNames`: names without their repetitions.
* `Named`: things that carry a name of their own.
-/

namespace StructQL

/-- A character that may open a name. -/
def isNameStart (c : Char) : Bool := c.isAlpha || c == '_'

/-- A character that may go on with a name. -/
def isNameContinue (c : Char) : Bool := c.isAlphanum || c == '_'

/-- The characters form a name. -/
def isName : List Char → Bool
  | [] => false
  | c :: cs => isNameStart c && cs.all isNameContinue

/-- **A name**: a text whose characters form one. -/
structure Name where
  text : String
  isName_text : isName text.toList = true
  deriving DecidableEq

namespace Name

instance : ToString Name := ⟨Name.text⟩

/-- The text as a name, if it is one. -/
def ofString? (text : String) : Option Name :=
  if h : isName text.toList = true then some ⟨text, h⟩ else none

/-- The characters as a name, if they form one. -/
def ofChars? (cs : List Char) : Option Name := ofString? (String.ofList cs)

theorem ext_text {a b : Name} (h : a.text = b.text) : a = b := by
  cases a; cases b; cases h; rfl

theorem text_eq_of_ofString? {text : String} {n : Name} (h : ofString? text = some n) :
    n.text = text := by
  unfold ofString? at h
  split at h
  · cases h; rfl
  · cases h

theorem ofString?_text (n : Name) : ofString? n.text = some n := by
  simp [ofString?, n.isName_text]

/-- The name under which every value can be asked for the type it has. -/
def typename : Name := ⟨"__typename", by decide⟩

/-- The scalar that `typename` has. -/
def string : Name := ⟨"String", by decide⟩

end Name

/-- Each name where it stood first. -/
def distinctNames (names : List Name) : List Name :=
  names.foldl (fun kept n => if n ∈ kept then kept else kept ++ [n]) []

theorem mem_distinctNames {names : List Name} {name : Name} :
    name ∈ distinctNames names ↔ name ∈ names := by
  have hfold : ∀ kept : List Name,
      name ∈ names.foldl (fun kept n => if n ∈ kept then kept else kept ++ [n]) kept ↔
        name ∈ kept ∨ name ∈ names := by
    induction names with
    | nil => simp
    | cons first rest ih =>
      intro kept
      rw [List.foldl_cons, ih]
      by_cases h : first ∈ kept
      · rw [if_pos h, List.mem_cons]
        refine ⟨Or.imp_right .inr, fun hm => ?_⟩
        rcases hm with hk | rfl | hr
        · exact .inl hk
        · exact .inl h
        · exact .inr hr
      · simp [h, or_assoc]
  simpa [distinctNames] using hfold []

theorem nodup_distinctNames (names : List Name) : (distinctNames names).Nodup := by
  have hfold : ∀ kept : List Name, kept.Nodup →
      (names.foldl (fun kept n => if n ∈ kept then kept else kept ++ [n]) kept).Nodup := by
    induction names with
    | nil => exact fun _ h => h
    | cons first rest ih =>
      intro kept hkept
      rw [List.foldl_cons]
      apply ih
      split
      · exact hkept
      · rename_i hnew
        refine List.nodup_append.2 ⟨hkept, by simp, fun a ha b hb hab => hnew ?_⟩
        rw [← List.mem_singleton.1 hb, ← hab]
        exact ha
  exact hfold [] List.nodup_nil

theorem distinctNames_of_nodup {names : List Name} (h : names.Nodup) :
    distinctNames names = names := by
  have hfold : ∀ kept : List Name, (kept ++ names).Nodup →
      names.foldl (fun kept n => if n ∈ kept then kept else kept ++ [n]) kept = kept ++ names := by
    clear h
    induction names with
    | nil => simp
    | cons first rest ih =>
      intro kept hkept
      have hnew : first ∉ kept := fun hmem =>
        (List.nodup_append.1 hkept).2.2 first hmem first List.mem_cons_self rfl
      have hnext : ((kept ++ [first]) ++ rest).Nodup := by simpa using hkept
      rw [List.foldl_cons, if_neg hnew, ih _ hnext, List.append_assoc, List.singleton_append]
  exact hfold [] h

/-- Things that carry a name of their own. -/
class Named (α : Type) where
  nameOf : α → Name

end StructQL
