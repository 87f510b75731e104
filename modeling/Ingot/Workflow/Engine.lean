import Ingot.Workflow.Emit
import Ingot.Workflow.Tools

/-!
# What becomes of a project

`buildProject` writes all units to files and counts the build in the manifest.
`runProject` writes them as text and has the interpreter run one of them; the others are
handed to the interpreter as well, before the one that runs.
-/

namespace Ingot.Workflow

open Package (Manifest countBuildIn)
open Compilation (CompiledUnit Project)

/-- The directories of an invocation. -/
structure Places where
  /-- The directory of the package. -/
  root : String
  /-- The directory of the sources. -/
  sourceRoot : String
  /-- The directory for what is built. -/
  output : String
  deriving DecidableEq, Repr

/-! ### Building -/

/-- What a build made. -/
structure BuildReport where
  /-- The artifacts, in the order of the units. -/
  artifacts : List Artifact
  /-- The number of the build, if it could be counted. -/
  number : Option Nat

/-- The part of the program that the notes on building belong to. -/
def buildTopic : String := "ion::engine::build"

/-- Writes a unit to a file and tells the user. -/
def buildUnit (places : Places) (form : ArtifactForm) (unit : CompiledUnit) : Act Artifact := do
  let artifact ← emitUnit places.output form unit
  Act.line .emitting
    s!"{Raw.shown (Path.relativeTo places.root artifact.path)} ({artifact.size} bytes, sha256 {Digest.short artifact.digest})"
  return artifact

/-- Counts a build in the manifest, if that can be done. -/
def countBuildOrWarn (root : String) : Act (Option Nat) := do
  match countBuildIn (← Act.files) root with
  | .ok (number, fs) =>
    Act.setFiles fs
    Act.note buildTopic s!"package build number is now {number}"
    return some number
  | .error e =>
    Act.line .warning s!"could not update the build number: {e.message}"
    return none

/-- What is built, in words. -/
def buildTitle (manifest : Manifest) (units : Nat) : String :=
  let ending := if units = 1 then "" else "s"
  s!"`{manifest.name}` v{manifest.version} ({units} unit{ending})"

/-- Writes all units to files and counts the build. -/
def buildProject (manifest : Manifest) (places : Places) (form : ArtifactForm)
    (project : Project) : Act BuildReport := do
  let artifacts ← project.units.mapM (buildUnit places form)
  let number ← countBuildOrWarn places.root
  Act.tell (.timed (buildTitle manifest project.size))
  return ⟨artifacts, number⟩

/-! ### Running -/

/-- What a run came to. -/
structure RunReport where
  /-- The unit that ran. -/
  entry : String
  /-- The status of the program; there is none if a signal ended it. -/
  status : Option Nat
  deriving DecidableEq, Repr

/-- The part of the program that the notes on running programs belong to. -/
def commandTopic : String := "ion::util::process"

/-- Writes a unit to a file as text and tells the user. -/
def prepareUnit (output : String) (unit : CompiledUnit) : Act Artifact := do
  let artifact ← emitUnit output .text unit
  Act.detail .emitting (Raw.shown artifact.path)
  return artifact

/-- The argument of the interpreter for the file of a unit that does not run. It is a text, which
shows the path of the file. -/
def moduleArgument (path : String) : String := Raw.ofText ("--extra-module=" ++ Raw.shown path)

/-- The arguments of the interpreter: all units but the one that runs, and then that one, by its
path as it is. -/
def interpreterArguments (entry : String) (others : List String) : List String :=
  others.map moduleArgument ++ [entry]

/-- Runs a command. The user sees what the program writes. -/
def execute (host : Host) (command : Command) : Act Ending := do
  Act.note commandTopic s!"running `{command.text}`"
  let execution ← Act.orFail (fun fault => .execution command.text (command.launchMessage fault))
    (command.run host (← Act.files))
  Act.setFiles execution.files
  execution.outputs.forM fun
    | .out text => Act.tell (.toolOutput text)
    | .err text => Act.tell (.toolMessage text)
  return execution.ending

/-- The last of the paths of the artifacts of a unit. -/
def entryPath? (entry : String) (artifacts : List Artifact) : Option String :=
  ((artifacts.filter fun a => a.unit == entry).map Artifact.path).getLast?

/-- Writes all units as text and has the interpreter run one of them. -/
def runProject (host : Host) (options : Options) (manifest : Manifest) (places : Places)
    (project : Project) : Act RunReport := do
  if options.bitcode then
    Act.line .warning "`--bitcode` is ignored by `run`; emitting textual IR"
  let entry := manifest.entry
  if (project.unit? entry).isNone then
    throw (.noEntry entry (", ".intercalate project.names))
  let artifacts ← project.units.mapM (prepareUnit places.output)
  match entryPath? entry artifacts with
  | none => throw (.internal s!"entry unit `{entry}` was not emitted")
  | some path =>
    let others := (artifacts.filter fun a => a.unit != entry).map Artifact.path
    match locateTool host (← Act.files) (some options.toolsDirectory) .lli with
    | none => throw (.toolNotFound .lli)
    | some lli =>
      let command : Command := ⟨lli, interpreterArguments path others, some places.root⟩
      Act.line .running s!"`{command.text}`"
      let ending ← execute host command
      match ending.status? with
      | some status => Act.line .finished s!"program exited with {status}"
      | none => Act.line .warning "program was terminated by a signal"
      return ⟨entry, ending.status?⟩

end Ingot.Workflow
