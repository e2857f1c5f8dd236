import StructQL.SDL.Assembly

/-!
# Schema documents

* `SDL.locate`: the line and the column of a place in a source.
* `SDL.syntaxFault`: the fault of a source that cannot be read further.
* `SDL.definitions`: the definitions of a source.
* `SDL.schemaOf`: the schema of a source.
-/

namespace StructQL.SDL

open Rule

/-- The line and the column of what is left of a source, both counted from one. -/
def locate (source rest : List Char) : Nat × Nat :=
  let before := source.take (source.length - rest.length)
  (before.count '\n' + 1, (before.reverse.takeWhile fun c => c ≠ '\n').length + 1)

/-- The fault of a source that cannot be read further. -/
def syntaxFault (source rest : List Char) : Fault :=
  let (line, column) := locate source rest
  let found := (Text.firstWord? rest).getD "end of input"
  .invalidGraphQL s!"Syntax error at {line}:{column}: unexpected \"{found}\""

/-- **The definitions of a source**, which holds nothing else. The source is all there: one that ends
within a definition does not fit at its end, and there is no case of a source that goes on. That case
would be an internal error, which no rule can lead to. -/
def definitions (source : List Char) : Except Fault (List Definition) :=
  match many definition source with
  | .miss place | .stop place => .error (syntaxFault source place)
  | .read all rest =>
    match ignored rest with
    | .read () [] => .ok all
    | .read () rest => .error (syntaxFault source rest)
    | .miss _ | .stop _ => .error (syntaxFault source rest)

/-- **The schema of a source.** Only names have been looked at, each once. -/
def schemaOf (source : String) : Except Failure Schema :=
  match definitions source.toList with
  | .ok all => assemble all
  | .error fault => .error (.single fault)

end StructQL.SDL
