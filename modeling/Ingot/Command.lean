import Ingot.FileSystem.Access
import Ingot.Toolchain

/-!
# Commands

A command names a program, its arguments, and the directory to run it in. A path with a
slash leads to the file of a program from the directory the command runs in; a bare name is
looked for in the directories of the search path. What a program does once it runs is up to
the host.
-/

namespace Ingot

/-- A program with its arguments, and the directory to run it in if that is another one than
the working directory. -/
structure Command where
  /-- The program. -/
  program : String
  /-- The arguments. -/
  arguments : List String
  /-- The directory to run in. -/
  directory : Option String
  deriving DecidableEq, Repr

/-- A command as one line. -/
def Command.text (c : Command) : String :=
  " ".intercalate ((c.program :: c.arguments).map Raw.shown)

/-- How a program ends. -/
inductive Ending where
  /-- With a status. -/
  | exited (status : Nat)
  /-- By a signal. -/
  | signalled (signal : Nat)
  deriving DecidableEq, Repr

/-- The status of a program that ended with one. -/
def Ending.status? : Ending → Option Nat
  | exited status => some status
  | signalled _ => none

/-- A piece of what a program writes. -/
inductive Output where
  /-- On the standard output. -/
  | out (text : String)
  /-- On the standard error. -/
  | err (text : String)
  deriving DecidableEq, Repr

/-- What comes of running a program. -/
structure Execution where
  /-- The file system afterwards. -/
  files : FileSystem
  /-- What the program writes, in order. -/
  outputs : List Output
  /-- How the program ends. -/
  ending : Ending

/-- The file of a program. -/
structure ProgramFile where
  /-- The path by which it was found. -/
  path : String
  /-- Where it is. -/
  location : Location
  deriving DecidableEq, Repr

/-- A program that is about to run. -/
structure Launch where
  /-- The program as it was named. -/
  name : String
  /-- Its file. -/
  file : ProgramFile
  /-- The arguments. -/
  arguments : List String
  /-- The directory it runs in. -/
  directory : Location
  deriving DecidableEq, Repr

/-- The machine that programs run on. -/
structure Host where
  /-- Its platform. -/
  platform : Platform
  /-- The directories in which programs are looked for. -/
  searchPath : List String
  /-- Runs a program. -/
  run : FileSystem → Launch → Except IoFault Execution
  /-- What is in the way when a manifest is replaced. -/
  obstacles : Obstacles := .none

namespace FileSystem

/-- The file of a program that a path leads to. -/
def findProgram (fs : FileSystem) (path : String) : Except IoFault ProgramFile :=
  match fs.find true path with
  | .error fault => .error fault
  | .ok (location, .file _ permissions) =>
    if permissions.executable then .ok ⟨path, location⟩ else .error .notPermitted
  | .ok (_, _) => .error .notPermitted

/-- Whether a file that can be run stands where a path leads. -/
def isProgram (fs : FileSystem) (path : String) : Bool :=
  match fs.findProgram path with
  | .ok _ => true
  | .error _ => false

end FileSystem

/-- The path of the first program of a name in the directories of a search path. -/
def programInPath (fs : FileSystem) (searchPath : List String) (name : String) :
    Option String :=
  (searchPath.map fun directory => Path.join directory name).find? fs.isProgram

/-- The first file of a name that can be run in the directories of a search path. A file
that may not be run is passed over, but is what is reported if there is no other. -/
def searchProgram (fs : FileSystem) (name : String) : List String → IoFault →
    Except IoFault ProgramFile
  | [], fault => .error fault
  | directory :: rest, fault =>
    match fs.findProgram (Path.join (if directory.isEmpty then "." else directory) name) with
    | .ok file => .ok file
    | .error .notPermitted => searchProgram fs name rest .notPermitted
    | .error .notFound => searchProgram fs name rest fault
    | .error .notDirectory => searchProgram fs name rest fault
    | .error other => .error other

namespace Command

/-- The directory that a command runs in. -/
def directoryIn (c : Command) (fs : FileSystem) : Except IoFault Location :=
  match c.directory with
  | none => .ok fs.workingDirectory
  | some path =>
    match fs.find true path with
    | .error fault => .error fault
    | .ok (location, .directory) => .ok location
    | .ok (_, _) => .error .notDirectory

/-- The file of the program of a command, seen from the directory it runs in. -/
def programFile (c : Command) (fs : FileSystem) (searchPath : List String)
    (directory : Location) : Except IoFault ProgramFile :=
  let fs := { fs with workingDirectory := directory }
  if c.program.toList.contains '/' then fs.findProgram c.program
  else if c.program.isEmpty then .error .notFound
  else searchProgram fs c.program searchPath .notFound

/-- Runs a command. -/
def run (c : Command) (host : Host) (fs : FileSystem) : Except IoFault Execution :=
  match c.directoryIn fs with
  | .error fault => .error fault
  | .ok directory =>
    match c.programFile fs host.searchPath directory with
    | .error fault => .error fault
    | .ok file => host.run fs ⟨c.program, file, c.arguments, directory⟩

/-- The words for a command that cannot be run. -/
def launchMessage (c : Command) (fault : IoFault) : String :=
  s!"could not launch `{Raw.shown c.program}`: {fault.message}"

end Command

end Ingot
