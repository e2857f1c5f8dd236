/-!
# Arguments of the command line

`[--log FILTER] [--config FILE] validate SCHEMA`, or `merge SCHEMA QUERY [--variables FILE]`,
or `coerce SCHEMA TYPE INPUT` in its place. The path `-` is that of the standard input.

* `Command`, `Arguments`: what the program is asked to do.
* `Arguments.ofList?`: the arguments of a list of words.
* `Arguments.isStandardInput`: the paths of the standard input.
-/

namespace StructQL

/-- **What the program is asked to do.** -/
inductive Command where
  | validate (schema : String)
  | merge (schema query : String) (variableFile : Option String)
  | coerce (schema typeName input : String)
  deriving DecidableEq

/-- **The arguments of the program.** -/
structure Arguments where
  logFilter : String
  configFile : Option String
  command : Command
  deriving DecidableEq

namespace Arguments

/-- The word does not start like an option. The standard input is written as a lone hyphen. -/
def isOperand (word : String) : Bool := word = "-" || word.toList.head? ≠ some '-'

/-- An option that has its value in the same word, after an equals sign. -/
def attached? (names : List String) (word : String) : Option (String × String) :=
  names.findSome? fun name =>
    ((("--" ++ name ++ "=").toList.isPrefixOf? word.toList).map String.ofList).map fun value =>
      (name, value)

/-- An option that has its value in the next word. -/
def named? (names : List String) (word : String) : Option String :=
  names.find? fun name => word = "--" ++ name

/-- **Options and operands.** All words after `--` are operands. Where only leading options are
wanted, all words from the first operand on are left. -/
def split (leading : Bool) (names : List String) :
    List String → Option (List (String × String) × List String)
  | [] => some ([], [])
  | word :: rest =>
    if isOperand word then
      if leading then some ([], word :: rest)
      else (split leading names rest).map fun (options, words) => (options, word :: words)
    else if word = "--" && !leading then some ([], rest)
    else
      match attached? names word with
      | some option =>
        (split leading names rest).map fun (options, words) => (option :: options, words)
      | none =>
        match named? names word, rest with
        | some name, value :: rest =>
          if isOperand value then
            (split leading names rest).map fun (options, words) =>
              ((name, value) :: options, words)
          else none
        | _, _ => none

/-- Options and operands, if no option is repeated. -/
def splitOnce (leading : Bool) (names words : List String) :
    Option (List (String × String) × List String) :=
  (split leading names words).filter fun (options, _) => (options.map (·.1)).Nodup

/-- The name of a file is not empty. -/
def isFile (name : String) : Bool := name ≠ ""

/-- The command, and its own options and operands. -/
def commandOf? : List String → Option Command
  | "validate" :: words =>
    match splitOnce false [] words with
    | some ([], [schema]) => if isFile schema then some (.validate schema) else none
    | _ => none
  | "merge" :: words =>
    match splitOnce false ["variables"] words with
    | some (options, [schema, query]) =>
      let variableFile := options.lookup "variables"
      if isFile schema && isFile query && variableFile.all isFile then
        some (.merge schema query variableFile)
      else none
    | _ => none
  | "coerce" :: words =>
    match splitOnce false [] words with
    | some ([], [schema, typeName, input]) =>
      if isFile schema && isFile input then some (.coerce schema typeName input) else none
    | _ => none
  | _ => none

/-- **The arguments of a list of words**, if they ask for something. -/
def ofList? (words : List String) : Option Arguments :=
  match splitOnce true ["log", "config"] words with
  | none => none
  | some (options, words) =>
    let configFile := options.lookup "config"
    if configFile.all isFile then
      (commandOf? words).map fun command =>
        ⟨(options.lookup "log").getD "warn", configFile, command⟩
    else none

/-- **The path is a lone hyphen**, but for steps that stay where they are. -/
def isStandardInput (path : String) : Bool :=
  match path.toList.splitOn '/' with
  | ['-'] :: steps => steps.all fun step => step.isEmpty || step = ['.']
  | _ => false

/-- The files that the arguments name. -/
def files (a : Arguments) : List String :=
  a.configFile.toList ++
    match a.command with
    | .validate schema => [schema]
    | .merge schema query variableFile => [schema, query] ++ variableFile.toList
    | .coerce schema _ input => [schema, input]

end Arguments

end StructQL
