import StructQL.CommandLine.Program

/-!
# The command line

Reads the files that the arguments name, and writes what the program leaves behind.
-/

namespace StructQL.CommandLine

/-- The texts of the files that can be read. -/
def readFiles (names : List String) : IO (List (String × String)) := do
  let texts ← names.mapM fun (name : String) => do
    match ← (IO.FS.readFile name).toBaseIO with
    | .ok text => return some (name, text)
    | .error _ => return none
  return texts.filterMap id

end StructQL.CommandLine

open StructQL

def main (words : List String) : IO UInt32 := do
  let arguments := Arguments.ofList? words
  let names := (arguments.map Arguments.files).getD []
  let (inputs, names) := names.partition Arguments.isStandardInput
  let files ← CommandLine.readFiles names
  let input ← if inputs.isEmpty then pure "" else (← IO.getStdin).readToEnd
  let outcome := CommandLine.run arguments ⟨fun name => files.lookup name, input⟩
  IO.print outcome.output
  IO.eprint outcome.errors
  return outcome.exitCode.toUInt32
