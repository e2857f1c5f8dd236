import StructQL.Json.Reader

/-!
# Settings

* `ConditionPolicy`, `Config`: what can be set.
* `Config.ofString?`: settings read from JSON. What is not set has its default; nothing but
  settings may be there, each at most once.
-/

namespace StructQL

/-- When the conditions of a query apply. -/
inductive ConditionPolicy where
  /-- A condition that can be decided drops its selection before merging. -/
  | evaluateThenMerge
  /-- Conditions are ignored. -/
  | mergeAll
  deriving DecidableEq

def ConditionPolicy.text : ConditionPolicy → String
  | evaluateThenMerge => "evaluate_then_merge"
  | mergeAll => "merge_all"

/-- **The settings.** -/
structure Config where
  conditionPolicy : ConditionPolicy := .evaluateThenMerge
  /-- Directives other than `@include` and `@skip` may stand on struct fields. -/
  allowCustomFieldDirectives : Bool := false
  /-- An input value may only have the fields of its struct. -/
  rejectUnknownInputFields : Bool := true
  deriving DecidableEq

namespace Config

def policyOfText? (text : String) : Option ConditionPolicy :=
  if text = "evaluate_then_merge" then some .evaluateThenMerge
  else if text = "merge_all" then some .mergeAll
  else none

/-- A policy is written as its text, or as an object with this one key and no value. -/
def policyOfJson? : Json → Option ConditionPolicy
  | .string text => policyOfText? text
  | .object [(text, .null)] => policyOfText? text
  | _ => none

def boolOfJson? : Json → Option Bool
  | .bool b => some b
  | _ => none

/-- One setting. -/
def set? (c : Config) (key : String) (value : Json) : Option Config :=
  if key = "condition_policy" then
    (policyOfJson? value).map fun p => { c with conditionPolicy := p }
  else if key = "allow_custom_field_directives" then
    (boolOfJson? value).map fun b => { c with allowCustomFieldDirectives := b }
  else if key = "reject_unknown_input_fields" then
    (boolOfJson? value).map fun b => { c with rejectUnknownInputFields := b }
  else none

/-- The keys of the settings, in order. -/
def keys : List String :=
  ["condition_policy", "allow_custom_field_directives", "reject_unknown_input_fields"]

/-- Settings from the entries of an object. -/
def ofEntries? (entries : List (String × Json)) : Option Config :=
  if (entries.map (·.1)).Nodup then
    entries.foldlM (fun c e => c.set? e.1 e.2) {}
  else none

/-- **Settings from the text of a JSON object**, or of an array with their values in order. -/
def ofString? (text : String) : Option Config :=
  match Json.verbatim? text with
  | some (.object entries) => ofEntries? entries
  | some (.array values) =>
    if values.length ≤ keys.length then ofEntries? (keys.zip values) else none
  | _ => none

end Config

end StructQL
