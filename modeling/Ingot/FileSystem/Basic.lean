import Ingot.FileSystem.Fault
import Ingot.Path

/-!
# File systems

A file system as a value: what stands at each location, and the working directory. A
location is the row of raw names that leads to it from the top. The top is a directory that
is always there.
-/

namespace Ingot

/-- The names that lead from the top of a file system to a place in it. -/
abbrev Location : Type := List String

/-- The path of a location. -/
def Location.path (l : Location) : String := "/" ++ "/".intercalate l

/-- What may be done with a file. -/
structure Permissions where
  /-- It may be read. -/
  readable : Bool
  /-- It may be written to. -/
  writable : Bool
  /-- It may be run. -/
  executable : Bool
  deriving DecidableEq, Repr

/-- The permissions of a new file. -/
def Permissions.ordinary : Permissions := ⟨true, true, false⟩

/-- The permissions of a program. -/
def Permissions.program : Permissions := ⟨true, true, true⟩

/-- What stands at a location. -/
inductive Node where
  /-- A file with its bytes. -/
  | file (content : ByteArray) (permissions : Permissions)
  /-- A directory. -/
  | directory
  /-- A link to a path. -/
  | link (target : String)

/-- Whether a directory stands here. -/
def Node.isDirectory : Node → Bool
  | directory => true
  | _ => false

/-- Whether a file stands here. -/
def Node.isFile : Node → Bool
  | file _ _ => true
  | _ => false

/-- Whether the same stands here and there. -/
def Node.same : Node → Node → Bool
  | file a p, file b q => a.toList == b.toList && decide (p = q)
  | directory, directory => true
  | link a, link b => a == b
  | _, _ => false

/-- A file system. -/
structure FileSystem where
  /-- What stands at the locations below the top. -/
  nodes : List (Location × Node)
  /-- The working directory. -/
  workingDirectory : Location

namespace FileSystem

/-- What stands at a location. -/
def node? (fs : FileSystem) (l : Location) : Option Node :=
  if l.isEmpty then some .directory else fs.nodes.lookup l

/-- A file system with something at a location, in place of what stood there. -/
def put (fs : FileSystem) (l : Location) (n : Node) : FileSystem :=
  if (fs.nodes.lookup l).isSome then
    { fs with nodes := fs.nodes.map fun e => if e.1 == l then (l, n) else e }
  else { fs with nodes := fs.nodes ++ [(l, n)] }

/-- A file system without what stood at a location. -/
def drop (fs : FileSystem) (l : Location) : FileSystem :=
  { fs with nodes := fs.nodes.filter fun e => e.1 != l }

/-- The names in the directory at a location, in order. -/
def namesIn (fs : FileSystem) (l : Location) : List String :=
  let names := fs.nodes.filterMap fun e =>
    if e.1.dropLast == l then e.1.getLast? else none
  names.mergeSort Raw.le

/-- The path of the working directory. -/
def workingPath (fs : FileSystem) : String := fs.workingDirectory.path

/-- Whether there are no links. -/
def hasNoLinks (fs : FileSystem) : Prop := ∀ l target, (l, Node.link target) ∉ fs.nodes

end FileSystem

end Ingot
