import StructQL.Coercion.Input
import StructQL.CommandLine.Arguments
import StructQL.CommandLine.LogFilter
import StructQL.Merger
import StructQL.SDL.Document

/-!
# The program

* `Sources`: the files and the standard input that the program reads.
* `Outcome`: what the program leaves behind.
* `run`: the program.
-/

namespace StructQL.CommandLine

/-- What can be read. -/
structure Sources where
  /-- The text of a file, if it can be read. -/
  file? : String → Option String
  /-- What is left of the standard input. -/
  input : String

/-- **What the program leaves behind.** -/
structure Outcome where
  exitCode : Nat
  output : String
  errors : String
  deriving DecidableEq

/-- Work that reads sources and may fail with a message. -/
abbrev Work (α : Type) := StateT Sources (Except String) α

/-- The text of a file, or all that is left of the standard input. -/
def read (name : String) : Work String := fun sources =>
  if Arguments.isStandardInput name then .ok (sources.input, { sources with input := "" })
  else
    match sources.file? name with
    | some text => .ok (text, sources)
    | none => .error s!"could not read {name}"

/-- The value, or a message that there is none. -/
def orFail {α : Type} (message : String) : Option α → Work α
  | some a => pure a
  | none => throw message

/-- The value, or a message that lists the faults. -/
def orFaults {α : Type} (heading : String) : Except Failure α → Work α
  | .ok a => pure a
  | .error failure => throw s!"{heading}:\n{failure.messages}"

/-- The settings of a file, or the defaults. -/
def readConfig : Option String → Work Config
  | none => pure {}
  | some file => do
    orFail s!"invalid configuration in {file}" (Config.ofString? (← read file))

/-- The valid schema of a file. -/
def readSchema (file : String) : Work ValidSchema := do
  let source ← read file
  orFaults s!"invalid schema {file}" ((SDL.schemaOf source).bind Schema.validate)

/-- The values of variables of a file, if there is one. -/
def readVariables : Option String → Work (List (String × Json))
  | none => pure []
  | some file => do
    match Json.ofString? (← read file) with
    | some (.object values) => return values
    | _ => throw s!"invalid variables in {file}"

/-- The valid structs and struct unions of a schema are counted. -/
def validate (schemaFile : String) : Work String := do
  let s := (← readSchema schemaFile).schema
  return s!"{s.structs.length} structs and {s.structUnions.length} struct unions are valid\n"

/-- The operations of a query are written with their entries. -/
def merge (config : Config) (schemaFile queryFile : String) (variableFile : Option String) :
    Work String := do
  let schema ← readSchema schemaFile
  let query ← read queryFile
  let values ← readVariables variableFile
  let operations ← orFaults s!"invalid query {queryFile}" (mergeSource schema query values config)
  return String.join (operations.map MergedOperation.text)

/-- An input value is coerced and written as JSON. -/
def coerce (config : Config) (schemaFile typeName inputFile : String) : Work String := do
  let schema ← readSchema schemaFile
  let name ← orFail "invalid type name" (Name.ofString? typeName)
  let value ← orFail s!"invalid JSON in {inputFile}" (Json.ofString? (← read inputFile))
  let coercer : InputCoercer := ⟨schema.schema, config, .builtIn⟩
  let coerced ← orFaults "invalid input" (coercer.coerce "input" (.named name true) value)
  return coerced.toJson.indented 0 ++ "\n"

/-- What the arguments ask for. -/
def perform (a : Arguments) : Work String := do
  unless LogFilter.isValid a.logFilter do throw "could not parse log configuration"
  let config ← readConfig a.configFile
  match a.command with
  | .validate schema => validate schema
  | .merge schema query variableFile => merge config schema query variableFile
  | .coerce schema typeName input => coerce config schema typeName input

/-- How the program is called. -/
def usage : String :=
  "usage: structql [--log FILTER] [--config FILE] COMMAND\n\n" ++
    "  validate SCHEMA\n" ++
    "  merge SCHEMA QUERY [--variables FILE]\n" ++
    "  coerce SCHEMA TYPE INPUT\n"

/-- The message of a failure. -/
def failed (message : String) : Outcome := ⟨1, "", "Error: " ++ message ++ "\n"⟩

/-- **The program.** -/
def run (arguments : Option Arguments) (sources : Sources) : Outcome :=
  match arguments with
  | none => ⟨2, "", usage⟩
  | some a =>
    match (perform a).run sources with
    | .ok (output, _) => ⟨0, output, ""⟩
    | .error message => failed message

end StructQL.CommandLine
