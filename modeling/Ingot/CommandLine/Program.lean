import Ingot.CommandLine.Arguments
import Ingot.CommandLine.NoteFilter
import Ingot.Workflow.Perform

/-!
# The program

The whole program as a function: from its arguments, its environment and the files to what
it writes, the files afterwards, and the status it ends with.
-/

namespace Ingot.CommandLine

open Console (Event View)
open Compilation (FrontEnd)
open Workflow (Act Failure Options World)

/-! ### What surrounds the program -/

/-- What the program is given when it starts. -/
structure Surroundings where
  /-- The arguments behind its name. -/
  arguments : List String
  /-- The variables of the environment. -/
  environment : List (String × String)
  /-- The directory the program is installed in. -/
  baseDirectory : String
  /-- Whether the user sees what is written on a terminal. -/
  terminal : Bool

namespace Surroundings

/-- The value of a variable of the environment. -/
def valueOf (s : Surroundings) (name : String) : Option String := s.environment.lookup name

/-- The path of the user's file of settings. -/
def userSettings (s : Surroundings) : Option String :=
  match s.valueOf "ION_CONFIG" with
  | some path => some path
  | none => ((s.valueOf "HOME").filter fun home => !home.isEmpty).map Settings.pathIn

/-- The filter of notes: the one in the environment, or one that goes by what the user
wants to see. -/
def noteFilter (s : Surroundings) (i : Invocation) : NoteFilter :=
  match (s.valueOf "RUST_LOG").bind NoteFilter.parse with
  | some filter => filter
  | none =>
    .upTo (if i.switches.contains .verbose then .debug
      else if i.switches.contains .quiet then .error else .info)

/-- How the user sees what the program says, given how long a work took in words. -/
def view (s : Surroundings) (i : Invocation) (duration : String → String) : View where
  verbosity := i.verbosity
  colored := i.colorChoice.apply s.terminal
  showsNote := (s.noteFilter i).shows
  duration := duration

/-- The options of an invocation in a working directory, and the files of settings that
give none. -/
def options (s : Surroundings) (fs : FileSystem) (i : Invocation) (directory : String) :
    Options × List Settings.LoadError :=
  let (settings, errors) :=
    Settings.loadLayers fs s.userSettings (Settings.pathIn (i.projectDirectory directory))
  ((i.options s.baseDirectory).withSettings settings, errors)

end Surroundings

/-! ### What the program does -/

/-- What the program leaves. -/
structure Result where
  /-- The files. -/
  files : FileSystem
  /-- What it wrote on the standard output. -/
  output : String
  /-- What it wrote on the standard error, given how long a work took in words. -/
  errors : (String → String) → String
  /-- The status it ended with. -/
  status : Nat

/-- The name of the program and its version. -/
def versionText : String := "ion 0.1.0\n"

/-- How the program is used. -/
def helpText (s : Surroundings) : String :=
  let tools := Raw.shown ((s.valueOf "ION_TOOLS_PATH").getD "")
  "Ion - compiler driver for the Ion language\n\n" ++
  "Usage: ion [OPTIONS] <OPERATION>\n\n" ++
  "Arguments:\n" ++
  "  <OPERATION>  Operation to perform: init, build or run\n\n" ++
  "Options:\n" ++
  "      --root <PATH>        Project root directory (defaults to the current directory)\n" ++
  "  -o, --output <PATH>      Output directory for artifacts, relative to the project root\n" ++
  "      --bitcode            Emit bitcode instead of textual IR\n" ++
  "      --debug              Read the default manifest template from the current directory\n" ++
  "      --no-integrity       Skip the toolchain integrity check\n" ++
  "      --tools-path <PATH>  Directory holding the toolchain binaries [env: ION_TOOLS_PATH=" ++
    tools ++ "]\n" ++
  "  -j, --jobs <N>           Number of parallel compile jobs\n" ++
  "  -v, --verbose            Enable verbose output\n" ++
  "  -q, --quiet              Print errors only\n" ++
  "      --no-color           Disable colored output\n" ++
  "  -h, --help               Print help\n" ++
  "  -V, --version            Print version\n"

/-- What the user is told when the arguments are refused. -/
def Refusal.text : Refusal → String
  | help => ""
  | version => ""
  | unknownArgument => "error: unexpected argument found\n"
  | tooManyValues => "error: unexpected value for a flag\n"
  | invalidValue => "error: a value is required\n"
  | wrongValue => "error: invalid value\n"
  | conflict => "error: arguments cannot be used together\n"
  | missingOperation => "error: the operation was not provided\n"

/-- The result of arguments that are refused. -/
def refuse (s : Surroundings) (fs : FileSystem) (refusal : Refusal) : Result :=
  let output := match refusal with
    | .help => helpText s
    | .version => versionText
    | _ => ""
  ⟨fs, output, fun _ => refusal.text, refusal.exitStatus⟩

/-- The part of the program that notes on settings belong to. -/
def settingsTopic : String := "ion::util::config"

/-- The note on a file of settings that gives none. -/
def settingsNote (e : Settings.LoadError) : Event :=
  .note .warn settingsTopic
    s!"Failed to load config from {Raw.shown e.path}: {e.message}: {e.cause}"

/-- What the program does when the arguments are in order. -/
def act (host : Host) (frontEnd : FrontEnd) (s : Surroundings) (fs : FileSystem)
    (i : Invocation) : Result :=
  match Workflow.workingPath fs with
  | .error failure =>
    ⟨fs, "", fun _ => "error: " ++ ": ".intercalate (failure.message :: failure.causes) ++ "\n", 1⟩
  | .ok directory =>
    let (options, errors) := s.options fs i directory
    let (outcome, world) :=
      (Workflow.perform host frontEnd options).perform ⟨fs, errors.map settingsNote⟩
    let written := fun duration => (s.view i duration).errorTexts world.told
    let output := View.outputTexts world.told
    match outcome with
    | .ok _ => ⟨world.files, output, written, 0⟩
    | .error failure =>
      ⟨world.files, output, fun duration => written duration ++ failure.render,
        failure.exitStatus⟩

/-- Runs the program. -/
def run (host : Host) (frontEnd : FrontEnd) (s : Surroundings) (fs : FileSystem) : Result :=
  match Invocation.parse s.arguments (s.valueOf "ION_TOOLS_PATH") with
  | .error refusal => refuse s fs refusal
  | .ok invocation => act host frontEnd s fs invocation

end Ingot.CommandLine
