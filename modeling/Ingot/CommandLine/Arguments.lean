import Ingot.Console
import Ingot.Workflow.Options
import Ingot.Text.Count

/-!
# Arguments

The arguments of the command line, read one after the other. A switch is either there or
not, a setting has a value, and what is neither is the operation. A setting without its
value waits for the next argument that can be one; whatever comes in between settles it.
-/

namespace Ingot.CommandLine

open Console (ColorChoice Verbosity)
open Workflow (Options)

/-! ### What can be asked for -/

/-- Something that is asked for or not. -/
inductive Switch where
  /-- To build in the binary form. -/
  | bitcode
  /-- To take the template of manifests from the working directory. -/
  | debug
  /-- To leave out the check of the tools. -/
  | noIntegrity
  /-- To see every file. -/
  | verbose
  /-- To see errors only. -/
  | quiet
  /-- To see no colours. -/
  | noColor
  /-- To see how the program is used. -/
  | help
  /-- To see the version of the program. -/
  | version
  deriving DecidableEq, Repr

/-- Something that has a value. -/
inductive Setting where
  /-- The directory of the package. -/
  | root
  /-- The directory for what is built. -/
  | output
  /-- The directory of the tools. -/
  | toolsPath
  /-- How many sources to compile at a time. -/
  | jobs
  deriving DecidableEq, Repr

/-- What an argument can name. -/
inductive Name where
  /-- A switch. -/
  | switch (s : Switch)
  /-- A setting. -/
  | setting (s : Setting)
  deriving DecidableEq, Repr

/-- What a word behind two hyphens names. -/
def Name.ofWord? : String → Option Name
  | "bitcode" => some (.switch .bitcode)
  | "debug" => some (.switch .debug)
  | "no-integrity" => some (.switch .noIntegrity)
  | "verbose" => some (.switch .verbose)
  | "quiet" => some (.switch .quiet)
  | "no-color" => some (.switch .noColor)
  | "help" => some (.switch .help)
  | "version" => some (.switch .version)
  | "root" => some (.setting .root)
  | "output" => some (.setting .output)
  | "tools-path" => some (.setting .toolsPath)
  | "jobs" => some (.setting .jobs)
  | _ => none

/-- What a letter behind a hyphen names. -/
def Name.ofLetter? : Char → Option Name
  | 'v' => some (.switch .verbose)
  | 'q' => some (.switch .quiet)
  | 'h' => some (.switch .help)
  | 'V' => some (.switch .version)
  | 'o' => some (.setting .output)
  | 'j' => some (.setting .jobs)
  | _ => none

/-! ### Why there is nothing to do -/

/-- Why the arguments do not lead to an invocation. -/
inductive Refusal where
  /-- The user asks how the program is used. -/
  | help
  /-- The user asks for the version of the program. -/
  | version
  /-- An argument means nothing. -/
  | unknownArgument
  /-- A switch has a value. -/
  | tooManyValues
  /-- A setting has no value, or an empty one. -/
  | invalidValue
  /-- A value is not of the right kind. -/
  | wrongValue
  /-- Something is asked for twice, or two things that exclude one another. -/
  | conflict
  /-- There is no operation. -/
  | missingOperation
  deriving DecidableEq, Repr

/-- The status with which the program ends. -/
def Refusal.exitStatus : Refusal → Nat
  | help => 0
  | version => 0
  | _ => 2

/-! ### Reading -/

/-- What the arguments say. -/
structure Invocation where
  /-- What to do. -/
  operation : String
  /-- The switches. -/
  switches : List Switch
  /-- The directory of the package. -/
  root : Option String
  /-- The directory for what is built. -/
  output : Option String
  /-- The directory of the tools. -/
  toolsPath : Option String
  /-- How many sources to compile at a time. -/
  jobs : Option Nat
  deriving DecidableEq, Repr

/-- What the arguments say so far. -/
structure Draft where
  /-- What to do. -/
  operation : Option String
  /-- The switches. -/
  switches : List Switch
  /-- The values of settings. -/
  values : List (Setting × String)
  /-- A setting that waits for its value or may still be refused. -/
  waiting : Option (Setting × Option String)
  /-- Whether all further arguments are operations. -/
  literal : Bool
  deriving DecidableEq, Repr

namespace Draft

/-- What no arguments say. -/
def blank : Draft := ⟨none, [], [], none, false⟩

/-- The most jobs and one more. -/
def jobsLimit : Nat := 18446744073709551616

/-- Checks the value of a setting. -/
def checkValue : Setting → String → Except Refusal Unit
  | .jobs, value =>
    if (Text.readCount? jobsLimit value).isSome then .ok () else .error .wrongValue
  | _, value => if value.isEmpty then .error .invalidValue else .ok ()

/-- Gives a setting its value. -/
def give (d : Draft) (setting : Setting) (value : String) : Except Refusal Draft := do
  if (d.values.lookup setting).isSome then throw .conflict
  checkValue setting value
  return { d with values := (setting, value) :: d.values }

/-- Gives the setting that waits its value. -/
def settle (d : Draft) : Except Refusal Draft :=
  match d.waiting with
  | none => .ok d
  | some (_, none) => .error .invalidValue
  | some (setting, some value) => { d with waiting := none }.give setting value

/-- Takes a switch. -/
def turnOn (d : Draft) (s : Switch) : Except Refusal Draft := do
  let d ← d.settle
  match s with
  | .help => throw .help
  | .version => throw .version
  | s =>
    if d.switches.contains s then throw .conflict
    return { d with switches := s :: d.switches }

/-- Takes a setting, with its value or without. -/
def set (d : Draft) (setting : Setting) (value : Option String) : Except Refusal Draft := do
  let d ← d.settle
  match value with
  | some value => d.give setting value
  | none => return { d with waiting := some (setting, none) }

/-- Takes an argument that starts with two hyphens, without them. -/
def readWord (d : Draft) (word : List Char) : Except Refusal Draft :=
  let value := match word.dropWhile (· != '=') with
    | [] => none
    | _ :: value => some (String.ofList value)
  match Name.ofWord? (String.ofList (word.takeWhile (· != '='))), value with
  | none, _ => .error .unknownArgument
  | some (.switch _), some _ => .error .tooManyValues
  | some (.switch s), none => d.turnOn s
  | some (.setting s), value => d.set s value

/-- Takes an argument that starts with one hyphen, without it. All behind the letter of a
setting is its value. -/
def readLetters (d : Draft) : List Char → Except Refusal Draft
  | [] => .ok d
  | c :: rest =>
    match Name.ofLetter? c with
    | none => .error .unknownArgument
    | some (.switch s) => do readLetters (← d.turnOn s) rest
    | some (.setting s) =>
      match rest with
      | [] => d.set s none
      | '=' :: value => d.set s (some (String.ofList value))
      | value => d.set s (some (String.ofList value))

/-- Takes an argument that is the operation. -/
def readOperation (d : Draft) (word : String) : Except Refusal Draft :=
  match d.operation with
  | some _ => .error .unknownArgument
  | none => do
    let d ← d.settle
    return { d with operation := some word }

/-- Takes an argument. -/
def readArgument (d : Draft) (word : String) : Except Refusal Draft :=
  if d.literal then d.readOperation word
  else
    match word.toList with
    | ['-', '-'] => .ok { d with literal := true }
    | '-' :: '-' :: rest => d.readWord rest
    | '-' :: c :: rest => d.readLetters (c :: rest)
    | _ =>
      match d.waiting with
      | some (setting, none) => .ok { d with waiting := some (setting, some word) }
      | _ => d.readOperation word

/-- What the arguments say in the end. The directory of the tools may be given by the
surroundings as well. -/
def finish (d : Draft) (toolsPath : Option String) : Except Refusal Invocation := do
  let d ← d.settle
  let d ← match toolsPath with
    | some path =>
      if (d.values.lookup .toolsPath).isSome then pure d else d.give .toolsPath path
    | none => pure d
  if d.switches.contains .quiet ∧ d.switches.contains .verbose then throw .conflict
  match d.operation with
  | none => throw .missingOperation
  | some operation =>
    return {
      operation := operation
      switches := d.switches
      root := d.values.lookup .root
      output := d.values.lookup .output
      toolsPath := d.values.lookup .toolsPath
      jobs := (d.values.lookup .jobs).bind (Text.readCount? jobsLimit) }

end Draft

namespace Invocation

/-- Reads the arguments behind the name of the program. -/
def parse (arguments : List String) (toolsPath : Option String) : Except Refusal Invocation := do
  (← arguments.foldlM Draft.readArgument Draft.blank).finish toolsPath

/-- The options that the arguments say. -/
def options (i : Invocation) (baseDirectory : String) : Options where
  operation := i.operation
  root := i.root
  output := i.output
  bitcode := i.switches.contains .bitcode
  debug := i.switches.contains .debug
  noIntegrity := i.switches.contains .noIntegrity
  toolsPath := i.toolsPath
  jobs := i.jobs
  baseDirectory := baseDirectory

/-- The directory of the package, which may have settings of its own. -/
def projectDirectory (i : Invocation) (workingDirectory : String) : String :=
  match i.root with
  | some root => if root.isEmpty then workingDirectory else Path.join workingDirectory root
  | none => workingDirectory

/-- How much the user wants to see. -/
def verbosity (i : Invocation) : Verbosity :=
  .ofSwitches (i.switches.contains .quiet) (i.switches.contains .verbose)

/-- When the user wants to see colours. -/
def colorChoice (i : Invocation) : ColorChoice :=
  if i.switches.contains .noColor then .never else .auto

end Invocation

end Ingot.CommandLine
