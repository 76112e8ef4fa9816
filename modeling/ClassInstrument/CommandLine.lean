import ClassInstrument.Batch.Basic

/-!
# Command lines

A command line names an input, an output and a configuration, and may name more places in which
classes are found.  The input is always one of these places, since its own classes have to be found
too.  The program runs one batch, whose only pair is the input and the output.
-/

namespace ClassInstrument

/-- What can be wrong with a command line. -/
inductive CommandFault where
  /-- There is no such option. -/
  | unknownOption (text : String)
  /-- An option comes without its value. -/
  | noValue (name : String)
  /-- An option that may be given once is given again. -/
  | repeated (name : String)
  /-- An option that is needed is not given. -/
  | missing (name : String)
deriving DecidableEq, Repr

/-- The text shown for a command line that cannot be used. -/
def CommandFault.message : CommandFault → String
  | unknownOption text => s!"error: unexpected argument '{text}' found"
  | noValue name => s!"error: a value is required for '{name}' but none was supplied"
  | repeated name => s!"error: the argument '{name}' cannot be used multiple times"
  | missing name => s!"error: the required argument '{name}' was not provided"

/-- What a command line asks for. -/
structure CommandLine where
  /-- Where the input is read. -/
  input : String
  /-- Where the output is written. -/
  output : String
  /-- Where the configuration is read. -/
  config : String
  /-- The places in which classes are found besides the input. -/
  classpath : List String
deriving DecidableEq, Repr

namespace CommandLine

/-- The option for the input. -/
def inputOption : String := "--input"

/-- The option for the output. -/
def outputOption : String := "--output"

/-- The option for the configuration. -/
def configOption : String := "--config"

/-- The option for more places in which classes are found, separated by colons. -/
def classpathOption : String := "--classpath"

/-- The option that asks for a description of the options. -/
def helpOption : String := "--help"

/-- The options that take a value. -/
def options : List String := [inputOption, outputOption, configOption, classpathOption]

/-- The description of the options. -/
def usage : String :=
  "\n".intercalate
    ["Instrument compiled classes according to the annotations they carry",
      "",
      "Options:",
      "  --input <PATH>       Class file, jar, or directory to transform",
      "  --output <PATH>      Where to write the transformed input (may be the input itself)",
      "  --config <FILE>      Directive file selecting and configuring the injectors",
      "  --classpath <PATHS>  Jars and directories needed to resolve classes, separated like PATH",
      "  --help               Print help"]

/-- The name of an option and the value that is joined to it by an equals sign, if any. -/
def splitOption (text : String) : String × Option String :=
  let name := text.toList.takeWhile (· != '=')
  match text.toList.drop name.length with
  | [] => (text, none)
  | _ :: value => (String.ofList name, some (String.ofList value))

/-- The options of a command line with their values, in the order in which they are given. -/
def pairs : List String → Except CommandFault (List (String × String))
  | [] => return []
  | text :: rest =>
    let (name, joined) := splitOption text
    if !options.contains name then .error (.unknownOption text)
    else
      match joined, rest with
      | some value, rest => do return (name, value) :: (← pairs rest)
      | none, value :: rest => do return (name, value) :: (← pairs rest)
      | none, [] => .error (.noValue name)

/-- The value of an option that is given once. -/
def single (given : List (String × String)) (name : String) : Except CommandFault String :=
  match given.filter fun entry => entry.1 == name with
  | [] => .error (.missing name)
  | [(_, value)] => .ok value
  | _ => .error (.repeated name)

/-- The pieces of a text between colons that are not empty. -/
def splitPlaces (text : String) : List String :=
  (text.splitOn ":").filter (· != "")

/-- Reads a command line. -/
def parse (arguments : List String) : Except CommandFault CommandLine := do
  let given ← pairs arguments
  return {
    input := ← single given inputOption
    output := ← single given outputOption
    config := ← single given configOption
    classpath := (given.filter fun entry => entry.1 == classpathOption).flatMap fun entry =>
      splitPlaces entry.2 }

end CommandLine

/-- What a command line asks for, in routes. -/
structure Job where
  /-- The input and the output. -/
  pair : FilePair
  /-- The file of the configuration. -/
  config : Route
  /-- The places in which classes are found. -/
  elements : List Route
deriving DecidableEq, Repr

namespace Job

/-- The job of a command line. -/
def ofCommandLine (command : CommandLine) : Job :=
  let input := Route.ofText command.input
  { pair := ⟨input, Route.ofText command.output⟩
    config := Route.ofText command.config
    elements := command.classpath.map Route.ofText ++ [input] }

/-- The routes to what a job reads or writes. -/
def routes (job : Job) : List Route :=
  (job.pair.input :: job.pair.output :: job.config :: job.elements).eraseDups

/-- The files after a job, and what is to be said if it fails. -/
def run (job : Job) (tree : FileTree) : FileTree × Option String :=
  let prepared := do
    let config ← Configuration.parseFile tree job.config
    Batch.build config [job.pair] job.elements tree
  match prepared with
  | .error fault => (tree, some fault.message)
  | .ok batch =>
    let outcome := batch.run tree
    (outcome.tree, outcome.fault.map BatchFault.message)

end Job

end ClassInstrument
