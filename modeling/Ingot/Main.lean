import Ingot.CommandLine.Program
import Ingot.Shell.Run

/-!
# The command line

The program is a function from files to files. Here the files that an invocation can touch
are read from the disk before it, and those that it changed are written to the disk after
it; the disk has names that are texts only. Programs are run by the machine of the library,
on which programs are scripts.
-/

namespace Ingot.Disk

/-- The most directories that are read inside of one another. -/
def depthLimit : Nat := 64

/-- Files with a directory at a location and at all locations above it. -/
def withDirectories (fs : FileSystem) (l : Location) : FileSystem :=
  (List.range l.length).foldl (fun fs n =>
    let above := l.take (n + 1)
    if (fs.node? above).isNone then fs.put above .directory else fs) fs

/-- Files with something at a location that is reached by directories. -/
def withNode (fs : FileSystem) (l : Location) (n : Node) : FileSystem :=
  (withDirectories fs l.dropLast).put l n

/-- The permissions of a file: one that names its interpreter is a program. -/
def permissionsOf (content : ByteArray) : Permissions :=
  let start := String.ofList (content.toList.take 2 |>.map fun b => Char.ofNat b.toNat)
  if start == String.ofList Shell.marker then .program else .ordinary

/-- The files that were read, and where. -/
structure Copy where
  /-- The files. -/
  files : FileSystem
  /-- The locations that were read. -/
  done : List Location

/-- Reads what stands at a path and below it. -/
def read : Nat → Copy → String → IO Copy
  | 0, c, _ => return c
  | depth + 1, c, path => do
    let real ← try pure (some (← IO.FS.realPath (Raw.shown path))) catch _ => pure none
    match real with
    | none => return c
    | some real =>
      let target := Raw.ofText real.toString
      let location := Path.segments target
      let files :=
        if Path.isAbsolute path && Path.segments path != location then
          withNode c.files (Path.segments path) (.link target)
        else c.files
      if c.done.contains location then return ⟨files, c.done⟩
      let done := location :: c.done
      if ← real.isDir then
        let mut copy : Copy := ⟨withDirectories files location, done⟩
        for entry in ← real.readDir do
          copy ← read depth copy (Raw.ofText entry.path.toString)
        return copy
      else
        let content ← IO.FS.readBinFile real
        return ⟨withNode files location (.file content (permissionsOf content)), done⟩

/-- Reads what stands at some paths and below them. -/
def readAll (c : Copy) (paths : List String) : IO Copy := paths.foldlM (read depthLimit) c

/-- Writes what is not on the disk as it should be, and removes what should not be there. -/
def write (before after : FileSystem) : IO Unit := do
  for (l, _) in before.nodes do
    if (after.node? l).isNone then IO.FS.removeFile (Raw.shown (Location.path l))
  for (l, n) in after.nodes do
    if !(before.node? l).any n.same then
      let path := Raw.shown (Location.path l)
      match n with
      | .directory => IO.FS.createDirAll path
      | .file content _ => IO.FS.writeBinFile path content
      | .link _ => pure ()

/-- The variables of the environment that matter. -/
def environment : IO (List (String × String)) := do
  let mut found := []
  for name in ["ION_CONFIG", "ION_TOOLS_PATH", "HOME", "RUST_LOG"] do
    match ← IO.getEnv name with
    | some value => found := (name, Raw.ofText value) :: found
    | none => pure ()
  return found

/-- The platform that the program runs on, as far as that can be told. -/
def platform : Platform := .linux

/-- The paths that an invocation can touch besides the directory of the package. -/
def otherPaths (fs : FileSystem) (options : Workflow.Options) (root directory : String)
    (searchPath : List String) : List String :=
  let sources := match Package.readManifest fs root with
    | .ok manifest => (manifest.sourceRoot.map (Path.join root)).toList
    | .error _ => []
  [options.toolsDirectory, options.outputDirectory root,
    Path.join options.baseDirectory Package.templateName,
    Path.join directory Package.templateName] ++
  sources ++ searchPath.map fun d => Path.join d Tool.lli.name

/-- Files with the programs that every machine has. -/
def withNatives (fs : FileSystem) : FileSystem :=
  Shell.natives.foldl (fun fs e => withNode fs e.1 (.file .empty .program)) fs

open CommandLine in
/-- Runs the program. -/
def run (arguments : List String) : IO UInt32 := do
  let directory := Raw.ofText (← IO.currentDir).toString
  let searchPath := (Raw.ofText ((← IO.getEnv "PATH").getD "")).splitOn ":"
  let surroundings : Surroundings :=
    ⟨arguments.map Raw.ofText, ← environment, Raw.ofText (← IO.appDir).toString, false⟩
  let start : Copy :=
    ⟨withNatives (withDirectories ⟨[], Path.segments directory⟩ (Path.segments directory)), []⟩
  let copy ← match Invocation.parse arguments (surroundings.valueOf "ION_TOOLS_PATH") with
    | .error _ => pure start
    | .ok i => do
      let root := i.projectDirectory directory
      let copy ← readAll start (root :: surroundings.userSettings.toList)
      let (options, _) := surroundings.options copy.files i directory
      readAll copy (otherPaths copy.files options root directory searchPath)
  let started ← IO.monoMsNow
  let result := CommandLine.run (Shell.scriptHost platform searchPath) Compilation.standardFrontEnd
    surroundings copy.files
  write copy.files result.files
  let took := Console.durationText ((← IO.monoMsNow) - started)
  (← IO.getStdout).putStr result.output
  (← IO.getStderr).putStr (result.errors fun _ => took)
  return UInt32.ofNat result.status

end Ingot.Disk

/-- Runs the program with its arguments. -/
def main (arguments : List String) : IO UInt32 := Ingot.Disk.run arguments
