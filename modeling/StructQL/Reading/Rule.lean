/-!
# Reading rules

A rule reads from the front of a list, of characters or of tokens. It answers with a value
and what is left, or it misses, and then another rule may be tried in its place, or it stops
the reading. Misses and stops point at the place that did not fit.

* `Reading`: the answer of a rule.
* `Rule`: rules, which are composed by `do`.
* `orElse`, `firstOf`, `optional`: choice and going back.
* `commit`: from here on a miss stops the reading.
* `ahead`, `notHere`: looking ahead.
* `many`, `many1`, `times`, `separated1`, `separated`: repetition. A repeated rule has to read
  something each time; one that does not is a miss of the whole repetition.
* `span`: what a rule read.
-/

namespace StructQL

/-- **The answer of a rule.** The whole input is there when a rule reads it, so no answer asks for
more: where the input ends too early, it does not fit. -/
inductive Reading (τ α : Type) where
  /-- A value was read, and this is left. -/
  | read (value : α) (rest : List τ)
  /-- The input does not fit here; another rule may. -/
  | miss (place : List τ)
  /-- The input does not fit here, and no other rule is tried. -/
  | stop (place : List τ)

/-- **A rule** that reads an `α` from the front of a list. -/
def Rule (τ α : Type) : Type := List τ → Reading τ α

namespace Rule

variable {τ α β : Type}

instance : Monad (Rule τ) where
  pure a := fun s => .read a s
  bind p f := fun s =>
    match p s with
    | .read a rest => f a rest
    | .miss place => .miss place
    | .stop place => .stop place

/-- Fits nowhere. -/
def never : Rule τ α := fun s => .miss s

/-- One item that passes the test. -/
def satisfy (test : τ → Bool) : Rule τ τ
  | [] => .miss []
  | a :: s => if test a then .read a s else .miss (a :: s)

/-- The given item. -/
def item [DecidableEq τ] (a : τ) : Rule τ Unit := do
  let _ ← satisfy (fun b => b = a)

/-- The given items, all or none. -/
def items [DecidableEq τ] (l : List τ) : Rule τ Unit := fun s =>
  if s.take l.length = l then .read () (s.drop l.length) else .miss s

/-- The items in front that pass the test, maybe none. -/
def takeWhile (test : τ → Bool) : Rule τ (List τ) := fun s =>
  .read (s.takeWhile test) (s.dropWhile test)

/-- The items in front that pass the test, at least one. -/
def takeWhile1 (test : τ → Bool) : Rule τ (List τ) := fun s =>
  if (s.takeWhile test).isEmpty then .miss s
  else .read (s.takeWhile test) (s.dropWhile test)

/-- The second rule is tried where the first misses. -/
def orElse (p q : Rule τ α) : Rule τ α := fun s =>
  match p s with
  | .read a rest => .read a rest
  | .miss _ => q s
  | .stop place => .stop place

/-- The first rule that does not miss. The last one says where the input did not fit. -/
def firstOf : List (Rule τ α) → Rule τ α
  | [] => never
  | [p] => p
  | p :: ps => orElse p (firstOf ps)

/-- The rule, or nothing where it misses. -/
def optional (p : Rule τ α) : Rule τ (Option α) := fun s =>
  match p s with
  | .read a rest => .read (some a) rest
  | .miss _ => .read none s
  | .stop place => .stop place

/-- From here on a miss stops the reading. -/
def commit (p : Rule τ α) : Rule τ α := fun s =>
  match p s with
  | .read a rest => .read a rest
  | .miss place => .stop place
  | .stop place => .stop place

/-- Nothing is read, and the rule does not fit here. -/
def notHere (p : Rule τ α) : Rule τ Unit := fun s =>
  match p s with
  | .read _ _ => .miss s
  | .miss _ => .read () s
  | .stop place => .stop place

/-- The rule fits here, and nothing is read. -/
def ahead (p : Rule τ α) : Rule τ Unit := notHere (notHere p)

/-- The items that the rule reads, in place of its value. -/
def span (p : Rule τ α) : Rule τ (List τ) := fun s =>
  match p s with
  | .read _ rest => .read (s.take (s.length - rest.length)) rest
  | .miss place => .miss place
  | .stop place => .stop place

/-- The value is turned into another one, and one that cannot be misses where the rule began. -/
def refine (p : Rule τ α) (f : α → Option β) : Rule τ β := fun s =>
  match p s with
  | .read a rest =>
    match f a with
    | some b => .read b rest
    | none => .miss s
  | .miss place => .miss place
  | .stop place => .stop place

/-- **The rule again and again**, until it misses. -/
def many (p : Rule τ α) : Rule τ (List α) := fun s =>
  match p s with
  | .miss _ => .read [] s
  | .stop place => .stop place
  | .read a rest =>
    if rest.length < s.length then
      match many p rest with
      | .read as rest' => .read (a :: as) rest'
      | .miss place => .miss place
      | .stop place => .stop place
    else .miss s
termination_by s => s.length

/-- The rule at least once, and again until it misses. -/
def many1 (p : Rule τ α) : Rule τ (List α) := do
  let first ← p
  let others ← many p
  return first :: others

/-- The rule so many times. -/
def times : Nat → Rule τ α → Rule τ (List α)
  | 0, _ => return []
  | count + 1, p => do
    let first ← p
    let others ← times count p
    return first :: others

/-- The rule at least once, with separators between. A separator that nothing follows is
left unread. -/
def separated1 (separator : Rule τ β) (p : Rule τ α) : Rule τ (List α) := do
  let first ← p
  let others ← many (do let _ ← separator; p)
  return first :: others

/-- The rule any number of times, with separators between. -/
def separated (separator : Rule τ β) (p : Rule τ α) : Rule τ (List α) := do
  let all ← optional (separated1 separator p)
  return all.getD []

/-- The rule between an opening and a closing. -/
def between {γ : Type} (opening : Rule τ β) (p : Rule τ α) (closing : Rule τ γ) : Rule τ α := do
  let _ ← opening
  let a ← p
  let _ ← closing
  return a

/-- The whole input, read by the rule, or nothing. -/
def readAll? (p : Rule τ α) (s : List τ) : Option α :=
  match p s with
  | .read a [] => some a
  | _ => none

end Rule

end StructQL
