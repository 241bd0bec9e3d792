import ZodModules.Project.Commands

/-!
# Arguments

How a list of arguments says which command to run. An option is written in full after two dashes or
as a letter after one; its value follows as the next argument, after an equals sign, or right after
the letter.
-/

namespace ZodModules

/-- What a list of arguments asks for. -/
inductive Request where
  | command (command : Command)
  | version
  | help

namespace Arguments

/-- An option that may be given. -/
structure Parameter where
  name : String
  letter : Option Char := none
  takesValue : Bool := false

/-- Why reading ends before the last argument. -/
inductive Stop where
  | refused
  | version
  | help

/-- The names and values of the options so far; those without value have an empty one. -/
abbrev Given := List (String × String)

/-- Whether an argument is an option, not a value. -/
def isOption (argument : String) : Bool :=
  argument.toList.head? == some '-' && 1 < argument.length

/-- Adds an option without value. None is given twice; some end the reading. -/
def addFlag (given : Given) (name : String) : Except Stop Given :=
  if name = "version" then .error .version
  else if name = "help" then .error .help
  else if (given.lookup name).isSome then .error .refused
  else .ok ((name, "") :: given)

/-- Adds an option with its value, which is not empty. None is given twice. -/
def addValue (given : Given) (name value : String) : Except Stop Given :=
  if value.isEmpty ∨ (given.lookup name).isSome then .error .refused
  else .ok ((name, value) :: given)

/-- Reads letters after one dash. The last one may await its value. -/
def readLetters (parameters : List Parameter) (given : Given) :
    List Char → Except Stop (Given × Option String)
  | [] => .ok (given, none)
  | letter :: rest =>
    match parameters.find? (·.letter == some letter) with
    | none => .error .refused
    | some parameter =>
      if parameter.takesValue then
        match rest with
        | [] => .ok (given, some parameter.name)
        | '=' :: value => do return (← addValue given parameter.name (String.ofList value), none)
        | value => do return (← addValue given parameter.name (String.ofList value), none)
      else do readLetters parameters (← addFlag given parameter.name) rest

/-- Reads what stands after two dashes. It may await its value. -/
def readName (parameters : List Parameter) (given : Given) (text : List Char) :
    Except Stop (Given × Option String) :=
  let name := String.ofList (text.takeWhile (· != '='))
  match parameters.find? (·.name == name), text.dropWhile (· != '=') with
  | none, _ => .error .refused
  | some parameter, [] =>
    if parameter.takesValue then .ok (given, some name)
    else do return (← addFlag given name, none)
  | some parameter, _ :: value =>
    if parameter.takesValue then do return (← addValue given name (String.ofList value), none)
    else .error .refused

/-- Reads the argument of an option. It may await its value. -/
def readOption (parameters : List Parameter) (given : Given) (argument : String) :
    Except Stop (Given × Option String) :=
  match argument.toList with
  | '-' :: '-' :: text => readName parameters given text
  | _ :: letters => readLetters parameters given letters
  | [] => .error .refused

/-- Reads options up to the first argument that is none. Two dashes by themselves may end them. -/
def readOptions (parameters : List Parameter) :
    List String → Given → Except Stop (Given × List String)
  | [], given => .ok (given, [])
  | argument :: rest, given =>
    if argument = "--" then (if rest.isEmpty then .ok (given, []) else .error .refused)
    else if isOption argument then do
      let (given, awaiting) ← readOption parameters given argument
      match awaiting, rest with
      | none, rest => readOptions parameters rest given
      | some _, [] => .error .refused
      | some name, value :: rest =>
        if isOption value then .error .refused
        else readOptions parameters rest (← addValue given name value)
    else .ok (given, argument :: rest)

/-! ## Commands -/

/-- The options of every command. Log lines are left out, so there is nothing more to say when asked
to be verbose. -/
def commonParameters : List Parameter :=
  [{ name := "verbose", letter := some 'v' }, { name := "help", letter := some 'h' }]

/-- The options before a command. -/
def leadingParameters : List Parameter :=
  { name := "version", letter := some 'V' } :: commonParameters

/-- The options of `validate`, of which `generate` has more. -/
def validateParameters : List Parameter :=
  [{ name := "input", letter := some 'i', takesValue := true },
    { name := "output", letter := some 'o', takesValue := true },
    { name := "config", letter := some 'c', takesValue := true }] ++ commonParameters

/-- The options of `generate`. Watch mode, in which the modules are generated again whenever the
document changes, is left out: `--watch` is refused like any option that is not listed. -/
def generateParameters : List Parameter :=
  [{ name := "dry-run" }, { name := "explicit-types" }, { name := "annotations" },
    { name := "strict" }] ++ validateParameters

/-- The options of `init`. -/
def initParameters : List Parameter :=
  [{ name := "output", letter := some 'o', takesValue := true }, { name := "force" }] ++
    commonParameters

/-- Whether an option without value is given. -/
def isGiven (given : Given) (name : String) : Bool := (given.lookup name).isSome

/-- The choice that an option without value makes. -/
def choice (given : Given) (name : String) : Option Bool :=
  if isGiven given name then some true else none

/-- Reads the options of a command, after which nothing follows. -/
def readAll (parameters : List Parameter) (arguments : List String) : Except Stop Given := do
  let (given, rest) ← readOptions parameters arguments []
  if rest.isEmpty then .ok given else .error .refused

/-- The document that a command works on, which must be given. -/
def inputOf (given : Given) : Except Stop String :=
  match given.lookup "input" with
  | some input => .ok input
  | none => .error .refused

/-- Whether there is help on some arguments: on everything, or on one command. -/
def isTopic : List String → Bool
  | [] => true
  | [name] => ["generate", "init", "validate", "help"].contains name
  | _ => false

/-- Reads a command and its options. -/
def readCommand (name : String) (arguments : List String) : Except Stop Command :=
  match name with
  | "generate" => do
    let given ← readAll generateParameters arguments
    return .generate {
      input := ← inputOf given
      settingsPath := given.lookup "config"
      overrides := {
        output := given.lookup "output"
        preferExplicitTyping := choice given "explicit-types"
        annotations := choice given "annotations"
        strict := choice given "strict" }
      dryRun := isGiven given "dry-run" }
  | "init" => do
    let given ← readAll initParameters arguments
    return .init ((given.lookup "output").getD Settings.fileName) (isGiven given "force")
  | "validate" => do
    let given ← readAll validateParameters arguments
    return .validate {
      input := ← inputOf given
      settingsPath := given.lookup "config"
      output := given.lookup "output" }
  | "help" => .error (if isTopic arguments then .help else .refused)
  | _ => .error .refused

/-- Reads the arguments of the program. -/
def read (arguments : List String) : Except Stop Command := do
  let (_, rest) ← readOptions leadingParameters arguments []
  match rest with
  | [] => .error .refused
  | name :: rest => readCommand name rest

/-- What the arguments of the program ask for; nothing if they are refused. -/
def request? (arguments : List String) : Option Request :=
  match read arguments with
  | .ok command => some (.command command)
  | .error .version => some .version
  | .error .help => some .help
  | .error .refused => none

end Arguments

/-! ## The program -/

/-- How the program ends. -/
inductive Ending where
  | success
  /-- The arguments were refused. -/
  | refused
  | failed (failure : Failure)

namespace Ending

/-- The status that the program ends with. -/
def exitCode : Ending → UInt8
  | success => 0
  | refused => 2
  | failed failure => failure.exitCode

end Ending

/-- The name and version of the program. -/
def versionText : String := "zodgen 0.1.0"

/-- How the program is used. -/
def usageText : String :=
  "Usage: zodgen [-v] <command>\n\n" ++
  "  generate -i FILE [-o DIR] [-c FILE] [--dry-run] [--explicit-types] [--annotations] [--strict]\n" ++
  "  init [-o FILE] [--force]\n" ++
  "  validate -i FILE [-o DIR] [-c FILE]"

variable {m : Type → Type} [Monad m] [Host m]

/-- Runs the program. -/
def runProgram (arguments : List String) : m Ending := do
  match Arguments.request? arguments with
  | none => return .refused
  | some .version =>
    Host.say versionText
    return .success
  | some .help =>
    Host.say usageText
    return .success
  | some (.command command) =>
    match ← command.run.run with
    | .ok _ => return .success
    | .error failure => return .failed failure

end ZodModules
