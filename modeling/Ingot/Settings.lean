import Ingot.FileSystem.Access
import Ingot.Toml.Schema

/-!
# Settings

Settings come in layers: files of the user and of the project, and the command line. A
layer sets what it sets, and is silent about the rest. Later layers go over earlier ones;
`bitcode`, which is either set or not, stays set once it is.
-/

namespace Ingot

open Toml (DocumentFault Record)

/-- What a layer sets. -/
structure Settings where
  /-- The directory for what is built. -/
  output : Option String
  /-- Whether to build in the binary form. -/
  bitcode : Bool
  /-- How many sources to compile at a time. -/
  jobs : Option Nat
  /-- The directory of the tools. -/
  toolsPath : Option String
  deriving DecidableEq, Repr

namespace Settings

/-- A layer that sets nothing. -/
def silent : Settings := ⟨none, false, none, none⟩

/-- A layer with another one over it. -/
def under (lower upper : Settings) : Settings where
  output := upper.output <|> lower.output
  bitcode := upper.bitcode || lower.bitcode
  jobs := upper.jobs <|> lower.jobs
  toolsPath := upper.toolsPath <|> lower.toolsPath

/-! ### Settings in files -/

/-- How the settings for building are read. -/
def buildRecord : Record Settings where
  name := "BuildConfig"
  fields := ["output", "bitcode", "jobs"]
  required := []
  start := silent
  field name data s :=
    match name with
    | "output" => data.asPath.map fun p => { s with output := some p }
    | "bitcode" => data.asBool.map fun b => { s with bitcode := b }
    | "jobs" => (data.asNat "usize").map fun n => { s with jobs := some n }
    | _ => .ok s

/-- How the settings of the tools are read. -/
def toolsRecord : Record Settings where
  name := "ToolsConfig"
  fields := ["path"]
  required := []
  start := silent
  field name data s :=
    match name with
    | "path" => data.asPath.map fun p => { s with toolsPath := some p }
    | _ => .ok s

/-- How a file of settings is read. -/
def fileRecord : Record Settings where
  name := "IonConfig"
  fields := ["build", "tools"]
  required := []
  start := silent
  field name data s :=
    match name with
    | "build" => (buildRecord.read data).map fun b => { b with toolsPath := s.toolsPath }
    | "tools" => (toolsRecord.read data).map fun t => { s with toolsPath := t.toolsPath }
    | _ => .ok s

/-- Why a file gives no settings. -/
inductive LoadError where
  /-- The file cannot be read. -/
  | unreadable (path : String) (fault : IoFault)
  /-- The text in it gives no settings. -/
  | malformed (path : String) (fault : DocumentFault)
  deriving DecidableEq, Repr

/-- An error in words, without its cause. -/
def LoadError.message : LoadError → String
  | unreadable path _ => s!"failed to read config file: {Raw.shown path}"
  | malformed path _ => s!"failed to parse config file: {Raw.shown path}"

/-- The path of the file. -/
def LoadError.path : LoadError → String
  | unreadable path _ => path
  | malformed path _ => path

/-- The cause of an error in words. -/
def LoadError.cause : LoadError → String
  | unreadable _ fault => fault.message
  | malformed _ fault => fault.message

/-- Reads a file of settings. -/
def load (fs : FileSystem) (path : String) : Except LoadError Settings :=
  match fs.readText path with
  | .error fault => .error (.unreadable path fault)
  | .ok text => (fileRecord.parse text).mapError (.malformed path)

/-- The settings of a file; one that is not there, or gives none, sets nothing. The answer
has the error of a file that is there and gives none. -/
def loadOrSilent (fs : FileSystem) (path : String) : Settings × Option LoadError :=
  if fs.isThere path then
    match load fs path with
    | .ok settings => (settings, none)
    | .error e => (silent, some e)
  else (silent, none)

/-- The settings of the user's file, if there is one, with those of the project over them,
and the errors of both files. -/
def loadLayers (fs : FileSystem) (user : Option String) (project : String) :
    Settings × List LoadError :=
  let lower := (user.map (loadOrSilent fs)).getD (silent, none)
  let upper := loadOrSilent fs project
  ((silent.under lower.1).under upper.1, lower.2.toList ++ upper.2.toList)

/-- The directory of files of settings, inside of another one. -/
def directoryName : String := ".ion"

/-- The name of a file of settings. -/
def fileName : String := "config.toml"

/-- The path of the file of settings in a directory. -/
def pathIn (directory : String) : String :=
  Path.join (Path.join directory directoryName) fileName

end Settings

end Ingot
