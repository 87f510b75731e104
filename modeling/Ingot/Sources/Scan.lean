import Ingot.Glob
import Ingot.Sources.Walk

/-!
# Finding sources

The sources of a package are the files below a directory whose names have the right
ending. Directories whose names are texts that start with a dot are not entered, and one
directory can be skipped; files whose paths, as they are shown, match a pattern are left
out. The answer is in the order of paths.
-/

namespace Ingot.Sources

/-- The ending of the names of sources. -/
def sourceEnding : String := "ion"

/-- Where to look for sources, and what to leave out. -/
structure Scope where
  /-- The directory that all sources are below. -/
  root : String
  /-- A directory that is not entered. -/
  skipped : Option String
  /-- Patterns of files that are left out. -/
  excluded : List Glob.Pattern

/-- Why there is no scan. -/
inductive ScanFault where
  /-- A pattern is none. -/
  | badPattern (root pattern : String) (fault : Glob.Fault)
  /-- The walk cannot go on. -/
  | walk (fault : WalkFault)
  deriving DecidableEq, Repr

/-- The path that a fault is about. -/
def ScanFault.path : ScanFault → String
  | badPattern root _ _ => root
  | walk fault => fault.path

/-- A fault in words. -/
def ScanFault.message : ScanFault → String
  | badPattern _ pattern fault => s!"invalid exclude pattern `{pattern}`: {fault.message}"
  | walk fault => fault.message

/-- Reads the patterns of what is left out below a directory. -/
def readPatterns (root : String) (patterns : List String) : Except ScanFault (List Glob.Pattern) :=
  patterns.mapM fun text => (Glob.Pattern.parse text).mapError (.badPattern root text)

namespace Scope

/-- Whether a name is a text that starts with a dot. -/
def isHidden (name : String) : Bool :=
  (Raw.text? name).any fun text => text.toList.head? == some '.'

/-- Whether a directory is not entered. -/
def leavesOut (s : Scope) (name path : String) : Bool :=
  isHidden name || s.skipped.any (Path.same path)

/-- The path of a file below the root as it is shown, with slashes between its names. -/
def nameOf (s : Scope) (path : String) : String :=
  "/".intercalate ((Path.componentsBelow s.root path).map fun c => Raw.shown c.text)

/-- Whether a file is left out by a pattern. -/
def excludes (s : Scope) (path : String) : Bool :=
  s.excluded.any fun pattern => pattern.matchesPath (s.nameOf path)

/-- Whether an entry is a file with the right ending. -/
def isSource (e : Entry) : Bool := e.isFile && Path.extension? e.path == some sourceEnding

/-- What a walk comes by below the root. -/
def entries (s : Scope) (fs : FileSystem) : List (Except WalkFault Entry) :=
  walk fs s.leavesOut s.root

/-- What a walk comes by before it fails, if it does. -/
def beforeFault : List (Except WalkFault Entry) → List Entry
  | .ok e :: rest => e :: beforeFault rest
  | _ => []

/-- The sources that a scan comes by and leaves out, in the order in which it does. -/
def leftOut (s : Scope) (fs : FileSystem) : List String :=
  (((beforeFault (s.entries fs)).filter isSource).map Entry.path).filter s.excludes

/-- The sources, in order. -/
def scan (s : Scope) (fs : FileSystem) : Except ScanFault (List String) :=
  match (s.entries fs).mapM id with
  | .error fault => .error (.walk fault)
  | .ok entries =>
    let paths := ((entries.filter isSource).map Entry.path).filter fun path => !s.excludes path
    .ok (paths.mergeSort Path.le)

end Scope

end Ingot.Sources
